import Connecta.Emit.NativeValues

/-!
# What the measure of a native value is

The walk answers where a value is plain and its text, its nodes and its depth are in their
bounds, and its bytes are those of the text.
-/

namespace Connecta.Emit

open Connecta.Foundation
open Connecta.Runtime
open Connecta.Runtime.JsString (ofAscii)
open Connecta.Results

variable {size : ℕ}

/-! ## The texts of numbers -/

theorem ascii_of_digit {unit : CodeUnit} (hdigit : Json.digit unit = true) : unit < 0x80 := by
  rw [Json.digit, Bool.and_eq_true, decide_eq_true_iff, decide_eq_true_iff] at hdigit
  exact UInt16.lt_of_le_of_lt hdigit.2 (by decide)

theorem bytes_of_ascii {text : JsString} (htext : ∀ unit ∈ text, unit < 0x80) :
    JsString.bytes text = text.length := by
  induction text with
  | nil => rfl
  | cons unit rest ih =>
      rw [List.forall_mem_cons] at htext
      rw [JsString.bytes_cons_ascii htext.1, ih htext.2, List.length_cons, Nat.add_comm]

theorem ascii_of_exponentText {text : JsString} (htext : ExponentText text) :
    ∀ unit ∈ text, unit < 0x80 := by
  obtain ⟨sign, digits, rfl, hsign, -, hdigits⟩ := htext
  intro unit hunit
  rcases List.mem_append.mp hunit with hunit | hunit
  · rcases hsign with rfl | rfl | rfl
    · exact absurd hunit List.not_mem_nil
    · exact List.mem_singleton.mp hunit ▸ by decide
    · exact List.mem_singleton.mp hunit ▸ by decide
  · exact ascii_of_digit (hdigits unit hunit)

theorem ascii_of_spelled {parts : NumberParts} (hparts : parts.Spelled) :
    ∀ unit ∈ parts.spell, unit < 0x80 := by
  have hpointed : ∀ unit ∈ parts.pointed, unit < 0x80 := by
    rw [NumberParts.pointed]
    split_ifs with hempty
    · simp
    · rw [List.forall_mem_cons]
      exact ⟨by decide, fun unit hunit => ascii_of_digit (hparts.fraction unit hunit)⟩
  have hmarked : ∀ unit ∈ parts.marked, unit < 0x80 := by
    rw [NumberParts.marked]
    split_ifs with hempty
    · simp
    · rw [List.forall_mem_cons]
      exact ⟨by decide, ascii_of_exponentText (hparts.exponent.resolve_left hempty)⟩
  rw [NumberParts.spell_eq]
  intro unit hunit
  rw [List.mem_append, List.mem_append, List.mem_append] at hunit
  rcases hunit with hsign | hwhole | hfraction | hexponent
  · split_ifs at hsign
    · exact List.mem_singleton.mp hsign ▸ by decide
    · exact absurd hsign List.not_mem_nil
  · exact ascii_of_digit (hparts.whole unit hwhole)
  · exact hpointed unit hfraction
  · exact hmarked unit hexponent

theorem ascii_finiteText {value : ℚ} (hdouble : Number.ofRat value = .finite value) :
    ∀ unit ∈ finiteText value, unit < 0x80 := by
  rw [finiteText]
  split_ifs with hzero
  · rw [List.forall_mem_singleton]
    decide
  · have hpositive := abs_pos.mpr hzero
    have hspelled := printedParts_spelled (value < 0) (shortest |value|).2
      (shortest_pos hpositive (ofRat_abs hdouble))
    exact ascii_of_spelled hspelled.1

theorem bytes_jsonNumber (value : JsNumber) :
    Json.bytes (ParsedValue.jsonNumber value) =
      (Json.stringify (ParsedValue.jsonNumber value)).length := by
  have hnull : ∀ unit ∈ Json.stringify .null, unit < 0x80 := by
    rw [← List.all_iff_forall_prop]
    decide +kernel
  apply bytes_of_ascii
  cases value with
  | nan => exact hnull
  | infinite negative => exact hnull
  | finite negative magnitude =>
      cases negative with
      | true => exact ascii_finiteText (ofRat_neg magnitude.double)
      | false => exact ascii_finiteText magnitude.double

/-! ## Parts -/

section Parts

variable {maxBytes : ℕ}

/-- A walk inside the bounds, in some objects. -/
def Walk.Ready (maxBytes : ℕ) (active : Finset (Fin size)) (walk : Walk size) : Prop :=
  walk.bytes ≤ maxBytes ∧ walk.nodes ≤ maxNodes maxBytes ∧ walk.active = active

theorem Walk.Ready.after {active : Finset (Fin size)} {walk : Walk size} {bytes nodes : ℕ}
    (hready : walk.Ready maxBytes active) (hfits : Fits maxBytes walk bytes nodes) :
    (walk.after bytes nodes).Ready maxBytes active :=
  ⟨hfits.1, hfits.2, hready.2.2⟩

theorem Walk.Ready.charged {active : Finset (Fin size)} {walk : Walk size} {amount : ℕ}
    (hready : walk.Ready maxBytes active) (hbytes : walk.bytes + amount ≤ maxBytes) :
    (walk.after amount 0).Ready maxBytes active :=
  hready.after ⟨hbytes, hready.2.1⟩

/-- The answer about a value that is read as a JSON value, or is not. -/
def Answers (maxBytes : ℕ) (active : Finset (Fin size)) (copy : Bool)
    (read : JsValue size → Option Json)
    (visit : JsValue size → Walk size → Option (Copied size × Walk size)) : Prop :=
  ∀ item walk, walk.Ready maxBytes active →
    (read item = none → visit item walk = none) ∧
    ∀ json, read item = some json →
      Charged maxBytes walk json.bytes (nodes json)
        (fun copied => copy = true → copied.json = some json) (visit item walk)

variable {active : Finset (Fin size)} {copy : Bool} {read : JsValue size → Option Json}
  {visit : JsValue size → Walk size → Option (Copied size × Walk size)}

theorem visitElements_charged (hvisit : Answers maxBytes active copy read visit)
    {slots : List (Option (Slot size))} {jsons : List Json}
    (hjsons : plainElements read slots = some jsons) (first : Bool) {walk : Walk size}
    (hready : walk.Ready maxBytes active) :
    Charged maxBytes walk (elementBytes first jsons) (elementNodes jsons)
      (fun copied => copy = true → Copied.elementsJson copied = some jsons)
      (visitElements maxBytes visit first slots walk) := by
  induction slots generalizing first walk jsons with
  | nil =>
      obtain rfl := Option.some.inj hjsons
      exact ⟨fun _ => ⟨[], rfl, fun _ => rfl⟩, fun hfits => absurd ⟨hready.1, hready.2.1⟩ hfits⟩
  | cons slot rest ih =>
      obtain ⟨item, hitem, hjsons⟩ := Option.bind_eq_some_iff.mp hjsons
      obtain ⟨json, hjson, hjsons⟩ := Option.bind_eq_some_iff.mp hjsons
      obtain ⟨others, hothers, hjsons⟩ := Option.bind_eq_some_iff.mp hjsons
      obtain rfl := Option.some.inj hjsons
      rw [visitElements, Walk.comma_eq hready.1, elementBytes, elementNodes, Nat.add_assoc]
      refine Charged.charge hready.2.1 fun hcomma => ?_
      have hbehind : (walk.after (if first then 0 else 1) 0).Ready maxBytes active :=
        hready.charged hcomma
      rw [hitem]
      refine ((hvisit item _ hbehind).2 json hjson).bind fun child hfits hchild => ?_
      refine (ih hothers false (hbehind.after hfits)).map fun children hchildren hcopy => ?_
      rw [Copied.elementsJson, hchild hcopy, hchildren hcopy]
      rfl

/-- What follows a charge is refused, and so are both. -/
theorem refused_charge {Part : Type} {walk : Walk size} {amount : ℕ}
    {next : Walk size → Option (Part × Walk size)}
    (hnext : walk.bytes + amount ≤ maxBytes → next (walk.after amount 0) = none) :
    (if walk.bytes + amount ≤ maxBytes then some (walk.after amount 0) else none).bind next =
      none := by
  split_ifs with hfits
  · exact hnext hfits
  · rfl

/-- What follows a part is refused, and so are both. -/
theorem Charged.refused {Part Rest : Type} {walk : Walk size} {bytes nodes : ℕ}
    {good : Part → Prop} {result : Option (Part × Walk size)}
    {next : Part × Walk size → Option (Rest × Walk size)}
    (hresult : Charged maxBytes walk bytes nodes good result)
    (hnext : ∀ part, Fits maxBytes walk bytes nodes → next (part, walk.after bytes nodes) = none) :
    result.bind next = none := by
  by_cases hfits : Fits maxBytes walk bytes nodes
  · obtain ⟨part, rfl, -⟩ := hresult.1 hfits
    exact hnext part hfits
  · rw [hresult.2 hfits, Option.bind_none]

theorem visitElements_refused (hvisit : Answers maxBytes active copy read visit)
    {slots : List (Option (Slot size))} (hslots : plainElements read slots = none) (first : Bool)
    {walk : Walk size} (hready : walk.Ready maxBytes active) :
    visitElements maxBytes visit first slots walk = none := by
  induction slots generalizing first walk with
  | nil => exact absurd hslots nofun
  | cons slot rest ih =>
      rw [visitElements, Walk.comma_eq hready.1]
      refine refused_charge fun hcomma => ?_
      have hbehind : (walk.after (if first then 0 else 1) 0).Ready maxBytes active :=
        hready.charged hcomma
      cases hitem : elementItem slot with
      | none => rfl
      | some item =>
          have hanswer := hvisit item _ hbehind
          cases hjson : read item with
          | none =>
              rw [Option.bind_eq_bind, Option.bind_some, hanswer.1 hjson]
              rfl
          | some json =>
              have hothers : plainElements read rest = none := by
                rw [plainElements, hitem] at hslots
                rw [Option.eq_none_iff_forall_ne_some]
                simpa [hjson] using hslots
              refine (hanswer.2 json hjson).refused fun child hfits => ?_
              dsimp only
              rw [ih hothers false (hbehind.after hfits)]
              rfl

theorem visitMembers_charged (hvisit : Answers maxBytes active copy read visit)
    {entries : List (JsString × Property size)} {members : List (JsString × Json)}
    (hmembers : plainMembers read entries = some members) (first : Bool) {walk : Walk size}
    (hready : walk.Ready maxBytes active) :
    Charged maxBytes walk (memberBytes first members) (memberNodes members)
      (fun copied => copy = true → Copied.membersJson copied = some members)
      (visitMembers maxBytes visit first entries walk) := by
  induction entries generalizing first walk members with
  | nil =>
      obtain rfl := Option.some.inj hmembers
      exact ⟨fun _ => ⟨[], rfl, fun _ => rfl⟩, fun hfits => absurd ⟨hready.1, hready.2.1⟩ hfits⟩
  | cons entry rest ih =>
      obtain ⟨key, slot, enumerable⟩ := entry
      cases enumerable with
      | false => exact ih hmembers first hready
      | true =>
          cases slot with
          | accessor => cases hmembers
          | data value =>
              cases value with
              | undefined => exact ih hmembers first hready
              | _ =>
                  obtain ⟨json, hjson, hmembers⟩ := Option.bind_eq_some_iff.mp hmembers
                  obtain ⟨others, hothers, hmembers⟩ := Option.bind_eq_some_iff.mp hmembers
                  obtain rfl := Option.some.inj hmembers
                  rw [visitMembers, Walk.comma_eq hready.1, memberBytes, memberNodes]
                  · rw [Nat.add_assoc, Nat.add_assoc, Nat.add_assoc]
                    refine Charged.charge hready.2.1 fun hcomma => ?_
                    have hbehind := hready.charged hcomma
                    rw [Walk.chargeString_eq hbehind.1]
                    refine Charged.charge hbehind.2.1 fun hkey => ?_
                    have hbehind := hbehind.charged hkey
                    rw [Walk.charge_eq]
                    refine Charged.charge hbehind.2.1 fun hcolon => ?_
                    have hbehind := hbehind.charged hcolon
                    refine ((hvisit _ _ hbehind).2 json hjson).bind fun child hfits hchild => ?_
                    refine (ih hothers false (hbehind.after hfits)).map
                      fun children hchildren hcopy => ?_
                    rw [Copied.membersJson, hchild hcopy, hchildren hcopy]
                    rfl
                  · simp

theorem visitMembers_refused (hvisit : Answers maxBytes active copy read visit)
    {entries : List (JsString × Property size)} (hentries : plainMembers read entries = none)
    (first : Bool) {walk : Walk size} (hready : walk.Ready maxBytes active) :
    visitMembers maxBytes visit first entries walk = none := by
  induction entries generalizing first walk with
  | nil => exact absurd hentries nofun
  | cons entry rest ih =>
      obtain ⟨key, slot, enumerable⟩ := entry
      cases enumerable with
      | false => exact ih hentries first hready
      | true =>
          cases slot with
          | accessor => rfl
          | data value =>
              by_cases hdefined : value = .undefined
              · subst hdefined
                exact ih hentries first hready
              have hentries : (do
                  let json ← read value
                  let others ← plainMembers read rest
                  return (key, json) :: others) = none := by
                rw [plainMembers] at hentries
                · exact hentries
                · exact hdefined
              rw [visitMembers, Walk.comma_eq hready.1]
              · refine refused_charge fun hcomma => ?_
                have hbehind := hready.charged hcomma
                rw [Walk.chargeString_eq hbehind.1]
                refine refused_charge fun hkey => ?_
                have hbehind := hbehind.charged hkey
                rw [Walk.charge_eq]
                refine refused_charge fun hcolon => ?_
                have hbehind := hbehind.charged hcolon
                have hanswer := hvisit value _ hbehind
                cases hjson : read value with
                | none =>
                    rw [Option.bind_eq_bind, hanswer.1 hjson]
                    rfl
                | some json =>
                    have hothers : plainMembers read rest = none := by
                      rw [hjson] at hentries
                      rw [Option.eq_none_iff_forall_ne_some]
                      simpa using hentries
                    refine (hanswer.2 json hjson).refused fun child hfits => ?_
                    dsimp only
                    rw [ih hothers false (hbehind.after hfits)]
                    rfl
              · exact hdefined

end Parts

/-! ## Values -/

section Values

variable {maxBytes : ℕ}

theorem plainElements_length {read : JsValue size → Option Json}
    {slots : List (Option (Slot size))} {jsons : List Json}
    (hjsons : plainElements read slots = some jsons) : jsons.length = slots.length := by
  induction slots generalizing jsons with
  | nil =>
      obtain rfl := Option.some.inj hjsons
      rfl
  | cons slot rest ih =>
      obtain ⟨item, -, hjsons⟩ := Option.bind_eq_some_iff.mp hjsons
      obtain ⟨json, -, hjsons⟩ := Option.bind_eq_some_iff.mp hjsons
      obtain ⟨others, hothers, hjsons⟩ := Option.bind_eq_some_iff.mp hjsons
      obtain rfl := Option.some.inj hjsons
      exact congrArg (· + 1) (ih hothers)

section Composition

variable {Part Rest : Type} {walk : Walk size} {bytes nodes : ℕ}

/-- The node of a value is counted before its parts are. -/
theorem Charged.node {good : Part → Prop} {next : Option (Part × Walk size)}
    (hnext : walk.nodes + 1 ≤ maxNodes maxBytes →
      Charged maxBytes (walk.after 0 1) bytes nodes good next) :
    Charged maxBytes walk bytes (1 + nodes) good
      (if maxNodes maxBytes < walk.nodes + 1 then none else next) := by
  split_ifs with hmany
  · refine ⟨fun hfits => ?_, fun _ => rfl⟩
    have hnodes := hfits.2
    omega
  · obtain ⟨hfits, hrefused⟩ := hnext (Nat.not_lt.mp hmany)
    have hsame : Fits maxBytes walk bytes (1 + nodes) ↔
        Fits maxBytes (walk.after 0 1) bytes nodes := by
      rw [Fits, Fits, Walk.after, Nat.add_zero, Nat.add_assoc]
    have hafter : walk.after bytes (1 + nodes) = (walk.after 0 1).after bytes nodes := by
      rw [Walk.after_after, Nat.zero_add]
    rw [Charged, hsame, hafter]
    exact ⟨hfits, hrefused⟩

theorem Charged.leaf {part : Part} {good : Part → Prop} (hnodes : walk.nodes ≤ maxNodes maxBytes)
    (hgood : good part) :
    Charged maxBytes walk bytes 0 good
      ((walk.charge maxBytes bytes).map fun walk => (part, walk)) := by
  rw [Walk.charge_eq]
  refine ⟨fun hfits => ?_, fun hfits => ?_⟩
  · rw [if_pos hfits.1]
    exact ⟨part, rfl, hgood⟩
  · rw [if_neg fun hbytes => hfits ⟨hbytes, hnodes⟩]
    rfl

/-- Parts that are more than the nodes left are refused, as they would be one by one. -/
theorem Charged.room {good : Part → Prop} {result : Option (Part × Walk size)} {count : ℕ}
    (hresult : Charged maxBytes walk bytes nodes good result) (hcount : count ≤ nodes) :
    Charged maxBytes walk bytes nodes good
      (if maxNodes maxBytes - walk.nodes < count then none else result) := by
  split_ifs with hmany
  · refine ⟨fun hfits => ?_, fun _ => rfl⟩
    have hnodes := hfits.2
    omega
  · exact hresult

/-- The two brackets are charged inside of an object. -/
theorem Charged.enter {address : Fin size} {good : Part → Prop}
    {next : Walk size → Option (Part × Walk size)} (hnodes : walk.nodes ≤ maxNodes maxBytes)
    (hnext : walk.bytes + 2 ≤ maxBytes → Charged maxBytes (walk.after 2 0) bytes nodes good
      (next { walk.after 2 0 with active := insert address walk.active })) :
    Charged maxBytes walk (2 + bytes) nodes good
      ((Walk.charge maxBytes { walk with active := insert address walk.active } 2).bind next) := by
  have hsame : (Walk.charge maxBytes { walk with active := insert address walk.active } 2).bind
      next = (if walk.bytes + 2 ≤ maxBytes then some (walk.after 2 0) else none).bind fun walk =>
        next { walk with active := insert address walk.active } := by
    rw [Walk.charge_eq]
    split_ifs <;> rfl
  rw [hsame]
  exact Charged.charge hnodes hnext

/-- What is charged inside an object is charged behind it. -/
theorem Charged.leave {address : Fin size} {good : Part → Prop} (good' : Rest → Prop)
    (change : Part → Rest) {result : Option (Part × Walk size)}
    (hresult : Charged maxBytes { walk with active := insert address walk.active } bytes nodes good
      result) (haddress : address ∉ walk.active)
    (hchange : ∀ part, good part → good' (change part)) :
    Charged maxBytes walk bytes nodes good' (result.bind fun answer =>
      some (change answer.1, { answer.2 with active := answer.2.active.erase address })) := by
  refine ⟨fun hfits => ?_, fun hfits => ?_⟩
  · obtain ⟨part, rfl, hpart⟩ := hresult.1 hfits
    refine ⟨change part, ?_, hchange part hpart⟩
    rw [Option.bind_some, Walk.after, Walk.after, Finset.erase_insert haddress]
  · rw [hresult.2 hfits]
    rfl

end Composition

variable (heap : Heap size) (copy : Bool)

theorem visit_answers (levels : ℕ) (active : Finset (Fin size)) :
    Answers maxBytes active copy (plain heap levels active) (visit maxBytes heap copy levels) := by
  induction levels generalizing active with
  | zero => exact fun _ _ _ => ⟨fun _ => rfl, fun _ hjson => by cases hjson⟩
  | succ levels ih =>
      intro item walk hready
      obtain ⟨hbytes, hnodes, rfl⟩ := hready
      cases item with
      | undefined | function | symbol | bigint =>
          exact ⟨fun _ => ite_self _, fun _ hjson => by cases hjson⟩
      | null =>
          refine ⟨fun hnone => (by cases hnone), fun json hjson => ?_⟩
          obtain rfl := Option.some.inj hjson
          have hlength : Json.bytes .null = (ofAscii "null").length := by decide +kernel
          rw [hlength]
          exact .node fun hcount => .leaf hcount fun _ => rfl
      | bool value =>
          refine ⟨fun hnone => (by cases hnone), fun json hjson => ?_⟩
          obtain rfl := Option.some.inj hjson
          have hlength : Json.bytes (.bool value) = (Json.stringify (.bool value)).length := by
            cases value <;> decide +kernel
          rw [hlength]
          exact .node fun hcount => .leaf hcount fun _ => rfl
      | number value =>
          refine ⟨fun hnone => (by cases hnone), fun json hjson => ?_⟩
          obtain rfl := Option.some.inj hjson
          have hone : nodes (ParsedValue.jsonNumber value) = 1 + 0 := by
            cases value <;> rfl
          rw [bytes_jsonNumber, hone]
          exact .node fun hcount => .leaf hcount fun _ => rfl
      | string text =>
          refine ⟨fun hnone => (by cases hnone), fun json hjson => ?_⟩
          obtain rfl := Option.some.inj hjson
          have hquoted : (walk.after 0 1).chargeString maxBytes text =
              (walk.after 0 1).charge maxBytes (Json.bytes (.string text)) := by
            have hcharged : (walk.after 0 1).bytes ≤ maxBytes := hbytes
            rw [Walk.chargeString_eq hcharged, Walk.charge_eq]
            rfl
          have hvisit : visit maxBytes heap copy (levels + 1) (.string text) walk =
              if maxNodes maxBytes < walk.nodes + 1 then none
              else ((walk.after 0 1).chargeString maxBytes text).map fun walk =>
                (.item (.string text), walk) := rfl
          rw [hvisit, hquoted]
          exact .node fun hcount => .leaf hcount fun _ => rfl
      | object address =>
          by_cases hfault : address ∈ walk.active ∨ (heap address).ordinary = false ∨
            (heap address).hooked = true
          · have hvisit : visit maxBytes heap copy (levels + 1) (.object address) walk = none := by
              rw [visit]
              dsimp only
              rw [if_pos hfault, ite_self]
            rw [hvisit, plain, if_pos hfault]
            exact ⟨fun _ => rfl, fun _ hjson => absurd hjson (by simp)⟩
          have hactive : address ∉ (walk.after 2 1).active := fun hmem => hfault (.inl hmem)
          have hinside (hcount : walk.nodes + 1 ≤ maxNodes maxBytes)
              (hbrackets : walk.bytes + 2 ≤ maxBytes) :
              Walk.Ready maxBytes (insert address walk.active)
                { walk.after 2 1 with active := insert address walk.active } :=
            ⟨hbrackets, hcount, rfl⟩
          have hchild := ih (insert address walk.active)
          rw [visit, plain, if_neg hfault]
          dsimp only
          rw [if_neg hfault]
          cases helements : (heap address).elements with
          | some slots =>
              dsimp only
              refine ⟨fun hjson => ?_, fun json hjson => ?_⟩
              · rw [Option.map_eq_none_iff] at hjson
                refine ite_eq_left_iff.mpr fun hcount => ?_
                rw [Walk.charge_eq]
                refine refused_charge fun hbrackets => ?_
                refine ite_eq_left_iff.mpr fun _ => ?_
                have hinner := hinside (Nat.not_lt.mp hcount) hbrackets
                exact congrArg (Option.bind · _) (visitElements_refused hchild hjson true hinner)
              · obtain ⟨jsons, hjsons, rfl⟩ := Option.map_eq_some_iff.mp hjson
                rw [bytes_array, nodes]
                refine .node fun hcount => .enter hcount fun hbrackets => ?_
                have hlength := length_le_elementNodes jsons
                rw [plainElements_length hjsons] at hlength
                refine .room ?_ hlength
                refine .leave
                  (fun copied : Copied size => copy = true → copied.json = some (.array jsons))
                  (fun elements => if copy then .array elements else .item .undefined)
                  (visitElements_charged hchild hjsons true (hinside hcount hbrackets))
                  hactive fun elements helements hcopy => ?_
                rw [if_pos hcopy, Copied.json, helements hcopy]
                rfl
          | none =>
              dsimp only
              refine ⟨fun hjson => ?_, fun json hjson => ?_⟩
              · rw [Option.map_eq_none_iff] at hjson
                refine ite_eq_left_iff.mpr fun hcount => ?_
                rw [Walk.charge_eq]
                refine refused_charge fun hbrackets => ?_
                have hinner := hinside (Nat.not_lt.mp hcount) hbrackets
                exact congrArg (Option.bind · _) (visitMembers_refused hchild hjson true hinner)
              · obtain ⟨members, hmembers, rfl⟩ := Option.map_eq_some_iff.mp hjson
                rw [bytes_object, nodes]
                refine .node fun hcount => .enter hcount fun hbrackets => ?_
                refine .leave
                  (fun copied : Copied size => copy = true → copied.json = some (.object members))
                  (fun members => if copy then .object members else .item .undefined)
                  (visitMembers_charged hchild hmembers true (hinside hcount hbrackets))
                  hactive fun members hjsons hcopy => ?_
                rw [if_pos hcopy, Copied.json, hjsons hcopy]
                rfl

end Values

end Connecta.Emit
