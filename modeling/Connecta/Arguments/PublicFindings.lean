import Connecta.Arguments.RenamedArguments

/-!
# What findings show

A finding is the same whatever the strings of the arguments are and however their
undeclared keys are called.  It points to declared names and positions in lists, it
shows a number only where the redaction keeps one, and it shows no literal of the
schema where its position is sensitive.
-/

namespace Connecta.Arguments

open Connecta.Runtime
open Connecta.Runtime.JsString (ofAscii)

variable {Address : Type} {heap : Heap Address}

/-! ## Two calls -/

/-- Units of two calls that report the same of them: their sentences give the same names,
and their locations differ in the names of keys alone. -/
structure SameUnit (names : Renaming heap) (unit unit' : ValidationUnit) : Prop where
  keyword : unit.keyword = unit'.keyword
  keywordLocation : unit.keywordLocation = unit'.keywordLocation
  closedBy : unit.closedBy = unit'.closedBy
  sentence : unitNames unit = unitNames unit'
  location : ∃ parts, unit.instanceLocation = pointerOf parts ∧
    unit'.instanceLocation = pointerOf (parts.map names.rename)

theorem publicPosition_same {names : Renaming heap} {unit unit' : ValidationUnit}
    (hsame : SameUnit names unit unit') (root : Address) :
    publicPosition heap root (unitLocation unit) =
      publicPosition heap root (unitLocation unit') := by
  obtain ⟨parts, hlocation, hlocation'⟩ := hsame.location
  rw [unitLocation_pointerOf hlocation, unitLocation_pointerOf hlocation', publicPosition,
    publicPosition, locationParts_pointerOf, locationParts_pointerOf, hsame.sentence]
  exact (publicParts_rename names root _ parts _ _ _).symm

theorem factsOf_same {names : Renaming heap} {unit unit' : ValidationUnit}
    (hsame : SameUnit names unit unit') {args args' : Json} (halike : Alike names.rename args args')
    {safeArgs safeArgs' : Option Json} (hsafe : AlikeOption names safeArgs safeArgs')
    (hkept : keptNumber safeArgs unit.instanceLocation =
      keptNumber safeArgs' unit'.instanceLocation) (root : Address) :
    factsOf heap root args safeArgs unit = factsOf heap root args' safeArgs' unit' := by
  have hposition := publicPosition_same hsame root
  have hwithheld : safeArgs.isNone = safeArgs'.isNone := by
    cases hsafe <;> rfl
  have hsentence := hsame.sentence
  rw [factsOf, factsOf]
  dsimp only
  rw [hposition, hwithheld, hsame.keyword, hsame.keywordLocation, hsame.closedBy, ← hsentence]
  obtain ⟨parts, hlocation, hlocation'⟩ := hsame.location
  cases hmissing : (unitNames unit).1 with
  | some missing => rfl
  | none =>
      have hunit : unitLocation unit = unit.instanceLocation := by
        rw [unitLocation, hmissing]
      have hunit' : unitLocation unit' = unit'.instanceLocation := by
        rw [unitLocation, ← hsentence, hmissing]
      have hreceived : receivedType (argumentAt args unit.instanceLocation) =
          receivedType (argumentAt args' unit'.instanceLocation) := by
        have hfound := argumentAt_alike names halike parts
        rw [← hlocation, ← hlocation'] at hfound
        exact receivedType_alike hfound
      dsimp only
      rw [hunit, hunit', hreceived, hkept]

section Calls

variable [DecidableEq Address] {localeCompare : JsString → JsString → Bool} {root : Address}

theorem redactCallArguments_alike (names : Renaming heap) {args args' : Json}
    (halike : Alike names.rename args args') :
    AlikeOption names (redactCallArguments heap localeCompare args root).value
      (redactCallArguments heap localeCompare args' root).value := by
  rw [redactCallArguments, redactCallArguments]
  cases hcompile : compile heap ⟨root, false, localeCompare⟩ with
  | none => exact .none
  | some plan =>
      have hsaid := says_of_compile hcompile
      have hleft := apply_alike names (MAX_DEPTH + 1) hsaid.normal (says_names hsaid) halike
      dsimp only
      rcases happly : apply (MAX_DEPTH + 1) args plan with ⟨_ | value, marks⟩ <;>
        rcases happly' : apply (MAX_DEPTH + 1) args' plan with ⟨_ | value', marks'⟩ <;>
          rw [happly, happly'] at hleft
      · exact .none
      · cases hleft
      · cases hleft
      · obtain ⟨hvalue⟩ := hleft
        exact hvalue

variable [Fintype Address]

/-- The findings of units that say the same of two calls. -/
theorem issuesFrom_same {names : Renaming heap} {args args' : Json}
    {safeArgs safeArgs' : Option Json} {units units' : List ValidationUnit}
    (hunits : List.Forall₂ (fun unit unit' =>
      factsOf heap root args safeArgs unit = factsOf heap root args' safeArgs' unit' ∧
        SameUnit names unit unit') units units') (seen : List JsString) :
    issuesFrom heap root args safeArgs seen units =
      issuesFrom heap root args' safeArgs' seen units' := by
  induction hunits generalizing seen with
  | nil => rfl
  | @cons unit unit' _ _ hunit _ ih =>
      obtain ⟨hfacts, hsame⟩ := hunit
      have hkey : ∀ issue, seenKey issue unit = seenKey issue unit' := by
        intro issue
        rw [seenKey, seenKey, hsame.keyword, hsame.keywordLocation]
      rw [issuesFrom, issuesFrom, issueFor, issueFor, hfacts]
      refine Option.bind_congr fun issue _ => ?_
      dsimp only
      rw [hkey issue, ih, ih]

/-- Findings carry no string of the arguments and no key that the schema does not have,
and of their numbers those alone that a redacted copy has where a unit points. -/
theorem validationIssues_same {names : Renaming heap} {args args' : Json}
    (halike : Alike names.rename args args') {units units' : List ValidationUnit}
    (hunits : List.Forall₂ (fun unit unit' => SameUnit names unit unit' ∧
      keptNumber (redactCallArguments heap localeCompare args root).value unit.instanceLocation =
        keptNumber (redactCallArguments heap localeCompare args' root).value
          unit'.instanceLocation) units units') :
    validationIssues heap localeCompare root args units =
      validationIssues heap localeCompare root args' units' :=
  issuesFrom_same (hunits.imp fun _ _ hunit =>
    ⟨factsOf_same hunit.1 halike (redactCallArguments_alike names halike) hunit.2 root,
      hunit.1⟩) []

end Calls

/-! ## Where findings point -/

variable (heap) in
/-- What a path shows of the parts of a location: the names that a branch declares, the
positions in lists, and nothing behind another key. -/
inductive Shown (root : Address) : Fields Address → List JsString → JsString → Prop where
  | nil {node : Fields Address} : Shown root node [] []
  | name {node branch : Fields Address} {child : Node Address} {part path : JsString}
      {rest : List JsString} (hbranch : branch ∈ branches heap root node)
      (hdeclared : declared heap part branch = some child)
      (hrest : Shown root (resolved heap root (some child)) rest path) :
      Shown root node (part :: rest) (ascii '/' :: encodePointerPart part ++ path)
  | index {node list : Fields Address} {part path : JsString} {rest : List JsString}
      (hbranch : list ∈ branches heap root node) (hlist : listing heap list = true)
      (hindex : indexText part = true)
      (hrest : Shown root (resolved heap root (entrySchema heap part list)) rest path) :
      Shown root node (part :: rest) (ascii '/' :: part ++ path)
  | key {node : Fields Address} {part : JsString} {rest : List JsString} :
      Shown root node (part :: rest) (ofAscii "/<key>")

theorem publicParts_shown (root : Address) (parts : List JsString) (node : Fields Address)
    (path : JsString) (sensitive : Bool) :
    (path = [] ∧ (publicParts heap root node path sensitive parts).1 = ofAscii "/") ∨
      ∃ more, (publicParts heap root node path sensitive parts).1 = path ++ more ∧
        Shown heap root node parts more := by
  induction parts generalizing node path sensitive with
  | nil =>
      rw [publicParts]
      split_ifs with hpath
      · exact .inl ⟨hpath, rfl⟩
      · exact .inr ⟨[], (List.append_nil _).symm, .nil⟩
  | cons part rest ih =>
      rw [publicParts]
      dsimp only
      split
      · next child hchild =>
          obtain ⟨branch, hbranch, hdeclared⟩ := List.exists_of_findSome?_eq_some hchild
          right
          rcases ih (resolved heap root (some child)) (path ++ ascii '/' :: encodePointerPart part)
            (sensitive || isWriteOnly (resolved heap root (some child))) with
              ⟨hnil, -⟩ | ⟨more, hmore, hshown⟩
          · exact absurd hnil (by simp)
          · refine ⟨_, ?_, .name hbranch hdeclared hshown⟩
            rw [hmore, List.append_assoc]
      · split
        · next list hlist hindex =>
            right
            rcases ih (resolved heap root (entrySchema heap part list)) (path ++ ascii '/' :: part)
              (sensitive || isWriteOnly (resolved heap root (entrySchema heap part list))) with
                ⟨hnil, -⟩ | ⟨more, hmore, hshown⟩
            · exact absurd hnil (by simp)
            · refine ⟨_, ?_, .index (List.mem_of_find?_eq_some hlist) ?_ hindex hshown⟩
              · rw [hmore, List.append_assoc]
              · exact List.find?_some (p := listing heap) hlist
        · exact .inr ⟨_, rfl, .key⟩

theorem publicPosition_shown (root : Address) (location : JsString) :
    (publicPosition heap root location).1 = ofAscii "/" ∨
      Shown heap root (resolved heap root (some (.ref root))) (locationParts location)
        (publicPosition heap root location).1 := by
  rcases publicParts_shown root (locationParts location) (resolved heap root (some (.ref root))) []
    (isWriteOnly (resolved heap root (some (.ref root)))) with ⟨-, hroot⟩ | ⟨more, hmore, hshown⟩
  · exact .inl hroot
  · exact .inr (hmore ▸ hshown)

/-! ## Literals -/

def LITERALS : List String := ["enum", "const", "pattern"]

def literal (key : JsString) : Bool := key ∈ LITERALS.map ofAscii

theorem literal_cases {key : JsString} (hliteral : literal key = true) :
    key = ofAscii "enum" ∨ key = ofAscii "const" ∨ key = ofAscii "pattern" := by
  have hmem := of_decide_eq_true hliteral
  simpa [LITERALS] using hmem

/-- An entry of a node without its literal. -/
def maskEntry (entry : JsString × Node Address) : JsString × Node Address :=
  (entry.1, if literal entry.1 then .null else entry.2)

def Fields.masked (fields : Fields Address) : Fields Address :=
  ⟨fields.entries.map maskEntry, by
    rw [List.map_map]
    exact fields.distinct⟩

/-- Facts without the literals of the schema. -/
def Facts.masked (facts : Facts Address) : Facts Address :=
  { facts with
    keyword := if literal facts.failed then none else facts.keyword
    node := facts.node.masked }

theorem masked_own {fields : Fields Address} {key : JsString} (hkey : literal key = false) :
    fields.masked.own key = fields.own key := by
  have hall : ∀ entries : List (JsString × Node Address),
      ((entries.map maskEntry).find? fun entry => entry.1 = key).map Prod.snd =
        (entries.find? fun entry => entry.1 = key).map Prod.snd := by
    intro entries
    induction entries with
    | nil => rfl
    | cons first rest ih =>
        rw [List.map_cons, List.find?_cons, List.find?_cons, maskEntry]
        by_cases hfirst : first.1 = key
        · rw [decide_eq_true hfirst, hfirst, hkey]
          rfl
        · rw [decide_eq_false hfirst]
          exact ih
  exact hall fields.entries

theorem boundText_literal {key : JsString} (hkey : literal key = true)
    (bound : Option (Node Address)) : boundText key bound = none := by
  have hnone : (SIDED_BOUNDS.find? fun entry => ofAscii entry.1 = key) = none ∧
      (BOUND_WORDS.find? fun entry => ofAscii entry.1 = key) = none := by
    rcases literal_cases hkey with rfl | rfl | rfl <;> decide
  rw [boundText.eq_def]
  split
  · rw [hnone.1, hnone.2]
    rfl
  · rfl

theorem patternText_sensitive (pattern : Option (Node Address)) :
    patternText pattern true = ofAscii "matching " ++ ofAscii "the inputSchema pattern" := by
  rw [patternText.eq_def]
  split
  · rw [Bool.not_true, Bool.false_and, if_neg Bool.false_ne_true]
  · rfl

/-! ## What findings say was received -/

section Issues

variable [DecidableEq Address] [Fintype Address]

/-- Nothing, or a type, or a number that is kept where nothing is sensitive. -/
def Received (facts : Facts Address) (received : Option JsString) : Prop :=
  received = none ∨ received = some facts.received ∨
    (facts.sensitive = false ∧ ∃ number, facts.safe = some number ∧ received = some number)

theorem merged_eq_some {facts : Facts Address} {expected failed received : JsString}
    {issue : Issue} (hmerged : merged heap facts expected failed received = some issue) :
    issue.path = facts.path ∧ issue.received = some received := by
  obtain ⟨others, -, rfl⟩ := Option.map_eq_some_iff.mp hmerged
  exact ⟨rfl, rfl⟩

/-- A finding points where its facts do. -/
theorem issueOf_eq_some {root : Address} {facts : Facts Address} {issue : Issue}
    (hissue : issueOf heap root facts = some issue) :
    issue.path = facts.path ∧ Received facts issue.received := by
  have hstated : ∀ {expected failed},
      merged heap facts expected failed facts.received = some issue →
        issue.path = facts.path ∧ Received facts issue.received := by
    intro expected failed hmerged
    obtain ⟨hpath, hreceived⟩ := merged_eq_some hmerged
    exact ⟨hpath, .inr (.inl hreceived)⟩
  rw [issueOf] at hissue
  split at hissue
  · exact hstated hissue
  split_ifs at hissue with hfalse hconst
  · obtain rfl := Option.some.inj hissue
    rw [closedIssue]
    split <;> exact ⟨rfl, .inl rfl⟩
  · rw [constIssue] at hissue
    split at hissue
    · obtain rfl := Option.some.inj hissue
      exact ⟨rfl, .inl rfl⟩
    · obtain ⟨text, -, rfl⟩ := Option.map_eq_some_iff.mp hissue
      exact ⟨rfl, .inl rfl⟩
  · rw [keywordIssue] at hissue
    dsimp only at hissue
    split at hissue
    · exact hstated hissue
    split at hissue
    · obtain ⟨text, -, hmerged⟩ := Option.bind_eq_some_iff.mp hissue
      exact hstated hmerged
    split at hissue
    · exact hstated hissue
    split at hissue
    · exact hstated hissue
    split at hissue
    · split at hissue
      · exact hstated hissue
      · obtain ⟨text, -, hmerged⟩ := Option.bind_eq_some_iff.mp hissue
        exact hstated hmerged
    split at hissue
    · exact hstated hissue
    obtain ⟨hpath, hreceived⟩ := merged_eq_some hissue
    refine ⟨hpath, ?_⟩
    cases hsensitive : facts.sensitive with
    | true =>
        rw [hsensitive] at hreceived
        exact .inr (.inl hreceived)
    | false =>
        rw [hsensitive] at hreceived
        cases hsafe : facts.safe with
        | none =>
            rw [hsafe] at hreceived
            exact .inr (.inl hreceived)
        | some number =>
            rw [hsafe] at hreceived
            exact .inr (.inr ⟨hsensitive, number, hsafe, hreceived⟩)

/-- Where nothing literal is stated, the constraints of a node do not tell its literals. -/
theorem constraint_masked (failed : JsString) (entry : JsString × Node Address) :
    constraint heap failed true (maskEntry entry) = constraint heap failed true entry := by
  rcases entry with ⟨key, value⟩
  cases hkey : literal key with
  | false =>
      rw [maskEntry, hkey]
      rfl
  | true =>
      have hunique : decide (key = ofAscii "uniqueItems") = false := by
        rcases literal_cases hkey with rfl | rfl | rfl <;> decide
      have hformat : key ≠ ofAscii "format" := by
        rcases literal_cases hkey with rfl | rfl | rfl <;> decide
      have hliteral : ∀ value, constraint heap failed true (key, value) =
          if key = failed then some []
          else if key = ofAscii "pattern" then
            some [ofAscii "matching " ++ ofAscii "the inputSchema pattern"]
          else some [] := by
        intro value
        rw [constraint, Bool.not_true, Bool.and_false, if_neg Bool.false_ne_true, hunique,
          Bool.false_and, if_neg Bool.false_ne_true, patternText_sensitive, if_neg hformat,
          boundText_literal hkey]
        rfl
      exact (hliteral _).trans (hliteral value).symm

theorem merged_masked {facts : Facts Address} (hsensitive : facts.sensitive = true)
    (expected failed received : JsString) :
    merged heap facts.masked expected failed received =
      merged heap facts expected failed received := by
  have hall : ∀ entries : List (JsString × Node Address),
      (entries.map maskEntry).mapM (constraint heap failed true) =
        entries.mapM (constraint heap failed true) := by
    intro entries
    induction entries with
    | nil => rfl
    | cons first rest ih =>
        rw [List.map_cons, List.mapM_cons, List.mapM_cons, constraint_masked, ih]
  have hconstraints : constraints heap facts.masked.node failed facts.masked.sensitive =
      constraints heap facts.node failed facts.sensitive := by
    rw [show facts.masked.sensitive = true from hsensitive, hsensitive]
    exact congrArg (Option.map List.flatten) (hall facts.node.entries)
  rw [merged, merged, hconstraints]
  rfl

/-- The finding of a literal's keyword, where nothing literal is stated. -/
theorem keywordIssue_literal {facts : Facts Address} (hsensitive : facts.sensitive = true)
    (hliteral : literal facts.failed = true) :
    keywordIssue heap facts = merged heap facts
      (if facts.failed = ofAscii "pattern" then
        ofAscii "a string " ++ (ofAscii "matching " ++ ofAscii "the inputSchema pattern")
      else ofAscii "a value matching the published inputSchema") facts.failed facts.received := by
  have hother : facts.failed ≠ ofAscii "type" ∧ facts.failed ≠ ofAscii "uniqueItems" ∧
      facts.failed ≠ ofAscii "format" := by
    rcases literal_cases hliteral with heq | heq | heq <;> rw [heq] <;> decide
  obtain ⟨htype, hunique, hformat⟩ := hother
  rw [keywordIssue]
  dsimp only
  rw [hsensitive, Bool.not_true, Bool.and_false, if_neg htype, if_neg Bool.false_ne_true,
    if_neg hunique, if_neg hformat, patternText_sensitive, boundText_literal hliteral]
  dsimp only
  split_ifs <;> rfl

/-- A finding where something is sensitive is told without the literals of the schema. -/
theorem issueOf_masked {root : Address} {facts : Facts Address} {issue : Issue}
    (hsensitive : facts.sensitive = true) (hissue : issueOf heap root facts = some issue) :
    issueOf heap root facts.masked = some issue := by
  have hmerged := @merged_masked _ heap _ _ _ hsensitive
  have hsensitive' : facts.masked.sensitive = true := hsensitive
  rw [issueOf] at hissue ⊢
  cases hmissing : facts.missing with
  | some missing =>
      rw [hmissing] at hissue
      rw [show facts.masked.missing = some missing from hmissing]
      dsimp only at hissue ⊢
      have htype : facts.masked.node.get "type" = facts.node.get "type" := masked_own (by decide)
      rw [htype, hmerged]
      exact hissue
  | none =>
      rw [hmissing] at hissue
      rw [show facts.masked.missing = none from hmissing,
        show facts.masked.failed = facts.failed from rfl]
      dsimp only at hissue ⊢
      split_ifs at hissue ⊢ with hfalse hconst
      · exact hissue
      · have hkeyword : facts.masked.keyword = none := by
          rw [Facts.masked, hconst]
          rfl
        rw [constIssue] at hissue ⊢
        dsimp only at hissue ⊢
        rw [hkeyword, hsensitive']
        rw [hsensitive] at hissue
        dsimp only at hissue ⊢
        split at hissue
        · exact hissue
        · obtain ⟨text, -, rfl⟩ := Option.map_eq_some_iff.mp hissue
          rw [Bool.not_true, Bool.false_and, if_neg Bool.false_ne_true]
          rfl
      · cases hliteral : literal facts.failed with
        | true =>
            rw [keywordIssue_literal hsensitive hliteral] at hissue
            rw [keywordIssue_literal hsensitive' hliteral, hmerged]
            exact hissue
        | false =>
            have hkeyword : facts.masked.keyword = facts.keyword := by
              rw [Facts.masked, hliteral]
              rfl
            rw [keywordIssue] at hissue ⊢
            simp only [hmerged, hkeyword]
            exact hissue

end Issues

/-! ## Sensitive positions -/

/-- A node that says by its own properties and items alone what is in a value. -/
structure Plain (heap : Heap Address) (fields : Fields Address) : Prop where
  reference : fields.get "$ref" = none
  alternatives : ∀ keyword ∈ ["allOf", "anyOf", "oneOf"], fields.get keyword = none
  items : listOf heap (fields.get "items") = none
  names : listing heap fields = true →
    ∀ index, declared heap (JsString.decimal index) fields = none

/-- The node that the properties and items of plain nodes lead to. -/
inductive Plainly (heap : Heap Address) (root : Address) :
    Node Address → List Step → Address → Prop where
  | here {address : Address} {fields : Fields Address} (hcell : heap address = .object fields)
      (hreference : fields.get "$ref" = none) : Plainly heap root (.ref address) [] address
  | step {address target : Address} {fields : Fields Address} {keyword : String} {step : Step}
      {rest : List Step} {child : Node Address} (hcell : heap address = .object fields)
      (hplain : Plain heap fields) (hpart : Part heap root fields keyword [step] child)
      (hrest : Plainly heap root child rest target) :
      Plainly heap root (.ref address) (step :: rest) target

/-- The part of a location that a step is. -/
def stepText : Step → JsString
  | .key name => name
  | .index index => JsString.decimal index

variable {root : Address}

theorem followed_of_reference {fields : Fields Address} (hreference : fields.get "$ref" = none)
    (hops : ℕ) : followed heap root hops fields = fields := by
  cases hops with
  | zero => rfl
  | succ hops => rw [followed, hreference]

theorem resolved_of_reference {address : Address} {fields : Fields Address}
    (hcell : heap address = .object fields) (hreference : fields.get "$ref" = none) :
    resolved heap root (some (.ref address)) = fields := by
  have hobject : schemaObject heap (some (.ref address)) = fields := by
    rw [schemaObject, Option.bind_some, recordOf, hcell]
    rfl
  rw [resolved, hobject, followed_of_reference hreference]

theorem branches_of_plain {fields : Fields Address} (hplain : Plain heap fields) :
    branches heap root fields = [fields] := by
  have hnone : ∀ keyword ∈ ["allOf", "anyOf", "oneOf"],
      (listOf heap (fields.get keyword)).getD [] = [] := by
    intro keyword hmem
    rw [hplain.alternatives keyword hmem]
    rfl
  rw [branches, followed_of_reference hplain.reference, List.flatMap_eq_nil_iff.mpr hnone]
  rfl

/-- What is in a sensitive value is sensitive. -/
theorem publicParts_sensitive (parts : List JsString) (node : Fields Address) (path : JsString) :
    (publicParts heap root node path true parts).2 = true := by
  induction parts generalizing node path with
  | nil => rfl
  | cons part rest ih =>
      rw [publicParts]
      dsimp only
      split
      · exact ih ..
      · split
        · exact ih ..
        · rfl

theorem cell_own_decimal (entries : List (Node Address)) (index : ℕ) :
    (Cell.array entries).own (JsString.decimal index) = entries[index]? := by
  have hfound := find_zipIdx entries index 0
  rw [Nat.zero_add] at hfound
  rw [Cell.own, if_neg (decimal_ne_length index)]
  exact hfound

theorem own_of_mem {fields : Fields Address} {name : JsString} {child : Node Address}
    (hmem : (name, child) ∈ fields.entries) : fields.own name = some child := by
  rw [Fields.own]
  cases hfound : fields.entries.find? fun entry => entry.1 = name with
  | none => exact absurd (decide_eq_true rfl) (List.find?_eq_none.mp hfound _ hmem)
  | some entry =>
      have hkey := List.find?_some hfound
      have hname : entry.1 = name := of_decide_eq_true hkey
      have hsame : entry = (name, child) := List.inj_on_of_nodup_map fields.distinct
        (List.mem_of_find?_eq_some hfound) hmem hname
      rw [hsame]
      rfl

/-- The step of a location into a plain node goes where the step of a position does. -/
theorem publicParts_plain {fields : Fields Address} {keyword : String} {step : Step}
    {child : Node Address} (hplain : Plain heap fields) (hnull : child ≠ .null)
    (hpart : Part heap root fields keyword [step] child) (path : JsString) (sensitive : Bool)
    (rest : List JsString) :
    ∃ path', publicParts heap root fields path sensitive (stepText step :: rest) =
      publicParts heap root (resolved heap root (some child)) path'
        (sensitive || isWriteOnly (resolved heap root (some child))) rest := by
  -- An entry of a list that no property is called as.
  have hentry : ∀ index, listing heap fields = true →
      entrySchema heap (JsString.decimal index) fields = some child →
        ∃ path', publicParts heap root fields path sensitive (JsString.decimal index :: rest) =
          publicParts heap root (resolved heap root (some child)) path'
            (sensitive || isWriteOnly (resolved heap root (some child))) rest := by
    intro index hlisting hchild
    refine ⟨path ++ ascii '/' :: JsString.decimal index, ?_⟩
    rw [publicParts, branches_of_plain hplain, List.findSome?_singleton,
      hplain.names hlisting index, List.find?_singleton, if_pos hlisting, indexText_decimal]
    dsimp only
    rw [hchild]
  cases hpart with
  | @property node _ record name hget hrecord hmem =>
      have hdeclared : declared heap name fields = some child := by
        have hrecord' : schemaObject heap (fields.get "properties") = record := by
          rw [schemaObject, hget, Option.bind_some, hrecord]
          rfl
        rw [declared, hrecord']
        exact own_of_mem hmem
      refine ⟨path ++ ascii '/' :: encodePointerPart name, ?_⟩
      rw [stepText, publicParts, branches_of_plain hplain, List.findSome?_singleton, hdeclared]
  | @prefixItem list _ index hget hchild =>
      refine hentry index ?_ ?_
      · rw [listing, hget]
        exact Bool.or_true _
      · rw [entrySchema, hget]
        dsimp only
        rw [cell_own_decimal, hchild]
        split
        · next heq => cases heq
        · next heq => exact absurd (Option.some.inj heq) hnull
        · next heq => exact heq.symm
  | @items _ index hget hschema hbeyond =>
      refine hentry index ?_ ?_
      · rw [listing, hget]
        rfl
      · rw [entrySchema]
        cases hlist : listOf heap (fields.get "prefixItems") with
        | none => exact hget
        | some list =>
            rw [hlist, Option.getD_some] at hbeyond
            dsimp only
            rw [cell_own_decimal, List.getElem?_eq_none hbeyond]
            exact hget
  | listItem hget | additionalItem hget =>
      rw [hplain.items] at hget
      cases hget

/-- A location at or below a private node that plain nodes lead to is sensitive. -/
theorem publicParts_private {node : Node Address} {position : List Step} {target : Address}
    (hplainly : Plainly heap root node position target)
    (hprivate : writeOnly heap (.ref target) = true) (path : JsString) (sensitive : Bool)
    (below : List JsString) :
    (publicParts heap root (resolved heap root (some node)) path
      (sensitive || isWriteOnly (resolved heap root (some node)))
      (position.map stepText ++ below)).2 = true := by
  induction hplainly generalizing path sensitive with
  | @here address fields hcell hreference =>
      have hsensitive : isWriteOnly fields = true := by
        rw [writeOnly, hcell] at hprivate
        exact hprivate
      rw [resolved_of_reference hcell hreference, hsensitive, Bool.or_true]
      exact publicParts_sensitive ..
  | @step address target fields keyword step rest child hcell hplain hpart hrest ih =>
      have hnull : child ≠ .null := by
        rintro rfl
        cases hrest
      rw [resolved_of_reference hcell hplain.reference, List.map_cons, List.cons_append]
      obtain ⟨path', heq⟩ := publicParts_plain hplain hnull hpart path
        (sensitive || isWriteOnly fields) (rest.map stepText ++ below)
      rw [heq]
      exact ih hprivate path' _

theorem publicPosition_private {position : List Step} {target : Address}
    (hplainly : Plainly heap root (.ref root) position target)
    (hprivate : writeOnly heap (.ref target) = true) (below : List Step) :
    (publicPosition heap root (pointerOf ((position ++ below).map stepText))).2 = true := by
  rw [publicPosition, locationParts_pointerOf, List.map_append]
  exact publicParts_private hplainly hprivate [] false (below.map stepText)

/-! ## The whole of it -/

section Findings

variable [DecidableEq Address]

variable (heap root) in
/-- Where a finding shows no literal: the redacted copy is withheld, the node of the
keyword is private, a node that the location is followed through is, or plain nodes lead
to a private one at the location or above it. -/
inductive Sensitive (localeCompare : JsString → JsString → Bool) (args : Json)
    (unit : ValidationUnit) : Prop where
  | withheld (hwithheld : (redactCallArguments heap localeCompare args root).value = none)
  | node (hnode : isWriteOnly (factsOf heap root args
      (redactCallArguments heap localeCompare args root).value unit).node = true)
  | followed (hfollowed : (publicPosition heap root (unitLocation unit)).2 = true)
  | plainly {position below : List Step} {target : Address}
      (hlocation : unitLocation unit = pointerOf ((position ++ below).map stepText))
      (hplainly : Plainly heap root (.ref root) position target)
      (hprivate : writeOnly heap (.ref target) = true)

variable {localeCompare : JsString → JsString → Bool} {args : Json} {unit : ValidationUnit}

theorem Sensitive.facts (hsensitive : Sensitive heap root localeCompare args unit) :
    (factsOf heap root args (redactCallArguments heap localeCompare args root).value
      unit).sensitive = true := by
  rw [factsOf]
  dsimp only
  rw [Bool.or_eq_true, Bool.or_eq_true]
  cases hsensitive with
  | withheld hwithheld => exact .inr (by rw [hwithheld]; rfl)
  | node hnode => exact .inl (.inr hnode)
  | followed hfollowed => exact .inl (.inl hfollowed)
  | plainly hlocation hplainly hprivate =>
      refine .inl (.inl ?_)
      rw [hlocation]
      exact publicPosition_private hplainly hprivate _

variable [Fintype Address]

/-- The types of values, and of one that is missing. -/
def RECEIVED_TYPES : List String :=
  ["missing", "null", "boolean", "number", "string", "array", "object"]

theorem receivedType_mem (value : Option Json) : receivedType value ∈ RECEIVED_TYPES := by
  rcases value with _ | (_ | _ | _ | _ | _ | _) <;> simp [receivedType, RECEIVED_TYPES]

/-- What a finding shows as received is no text of the arguments: nothing, a type, or the
number that the redacted copy has, where nothing is sensitive. -/
theorem issueFor_received {issue : Issue}
    (hissue : issueFor heap root args (redactCallArguments heap localeCompare args root).value
      unit = some issue) :
    issue.received = none ∨ (∃ type ∈ RECEIVED_TYPES, issue.received = some (ofAscii type)) ∨
      (¬ Sensitive heap root localeCompare args unit ∧ ∃ kept number,
        (redactCallArguments heap localeCompare args root).value = some kept ∧
          argumentAt kept (unitLocation unit) = some (.number number) ∧
            issue.received = some number) := by
  rcases (issueOf_eq_some hissue).2 with hnone | htype | ⟨hpublic, number, hsafe, hnumber⟩
  · exact .inl hnone
  · right
    left
    rw [factsOf] at htype
    dsimp only at htype
    split at htype
    · exact ⟨_, receivedType_mem _, htype⟩
    · exact ⟨"missing", by decide, htype⟩
  · right
    right
    refine ⟨fun hsensitive => ?_, ?_⟩
    · rw [hsensitive.facts] at hpublic
      cases hpublic
    · rw [factsOf] at hsafe
      dsimp only at hsafe
      split at hsafe
      · rw [keptNumber] at hsafe
        split at hsafe
        · next lexeme hfound =>
            obtain ⟨kept, hkept, hlexeme⟩ := Option.bind_eq_some_iff.mp hfound
            obtain rfl := Option.some.inj hsafe
            exact ⟨kept, lexeme, hkept, hlexeme, hnumber⟩
        · cases hsafe
      · cases hsafe

/-- Every finding is the finding of a unit. -/
theorem issuesFrom_mem {safeArgs : Option Json} {units : List ValidationUnit}
    {seen : List JsString} {issues : List Issue}
    (hissues : issuesFrom heap root args safeArgs seen units = some issues) {issue : Issue}
    (hmem : issue ∈ issues) :
    ∃ unit ∈ units, issueFor heap root args safeArgs unit = some issue := by
  induction units generalizing seen issues with
  | nil =>
      obtain rfl := Option.some.inj hissues
      cases hmem
  | cons first rest ih =>
      rw [issuesFrom] at hissues
      obtain ⟨found, hfound, hissues⟩ := Option.bind_eq_some_iff.mp hissues
      dsimp only at hissues
      split_ifs at hissues
      · obtain ⟨unit, hunit, hissue⟩ := ih hissues hmem
        exact ⟨unit, List.mem_cons_of_mem _ hunit, hissue⟩
      · obtain ⟨others, hothers, hissues⟩ := Option.bind_eq_some_iff.mp hissues
        obtain rfl := Option.some.inj hissues
        rcases List.mem_cons.mp hmem with rfl | hmem
        · exact ⟨first, List.mem_cons_self, hfound⟩
        · obtain ⟨unit, hunit, hissue⟩ := ih hothers hmem
          exact ⟨unit, List.mem_cons_of_mem _ hunit, hissue⟩

end Findings

/-- Findings are the same whatever the strings of the arguments and the names of undeclared
keys are; each points to declared names and positions in lists, shows a number only where
the redaction keeps it, and no literal of the schema where it is sensitive. -/
theorem findings_public [DecidableEq Address] [Fintype Address] (heap : Heap Address)
    (localeCompare : JsString → JsString → Bool) (root : Address) :
    (∀ (names : Renaming heap) args args' units units', Alike names.rename args args' →
      List.Forall₂ (fun unit unit' => SameUnit names unit unit' ∧
        keptNumber (redactCallArguments heap localeCompare args root).value
            unit.instanceLocation =
          keptNumber (redactCallArguments heap localeCompare args' root).value
            unit'.instanceLocation) units units' →
        validationIssues heap localeCompare root args units =
          validationIssues heap localeCompare root args' units') ∧
    ∀ args units issues, validationIssues heap localeCompare root args units = some issues →
      ∀ issue ∈ issues, ∃ unit ∈ units,
        (issue.path = ofAscii "/" ∨
          Shown heap root (resolved heap root (some (.ref root)))
            (locationParts (unitLocation unit)) issue.path) ∧
        (issue.received = none ∨
          (∃ type ∈ RECEIVED_TYPES, issue.received = some (ofAscii type)) ∨
          (¬ Sensitive heap root localeCompare args unit ∧ ∃ kept number,
            (redactCallArguments heap localeCompare args root).value = some kept ∧
              argumentAt kept (unitLocation unit) = some (.number number) ∧
                issue.received = some number)) ∧
        (Sensitive heap root localeCompare args unit →
          issueOf heap root (factsOf heap root args
            (redactCallArguments heap localeCompare args root).value unit).masked =
              some issue) := by
  refine ⟨fun names args args' units units' halike hunits => ?_, ?_⟩
  · exact validationIssues_same halike hunits
  · intro args units issues hissues issue hmem
    obtain ⟨unit, hunit, hissue⟩ := issuesFrom_mem hissues hmem
    refine ⟨unit, hunit, ?_, issueFor_received hissue, fun hsensitive => ?_⟩
    · have hpath : issue.path = (publicPosition heap root (unitLocation unit)).1 :=
        (issueOf_eq_some hissue).1
      exact hpath ▸ publicPosition_shown root _
    · exact issueOf_masked hsensitive.facts hissue

/-- A list of which the first element is private and the second one of two values:
`{"properties":{"list":{"prefixItems":[{"writeOnly":true,"const":"c"},{"enum":["x",7]}]}}}` -/
def privateFirst : Heap (Fin 7)
  | 0 => oneField "properties" (.ref 1)
  | 1 => oneField "list" (.ref 2)
  | 2 => oneField "prefixItems" (.ref 3)
  | 3 => .array [.ref 4, .ref 5]
  | 4 => .object ⟨[(ofAscii "writeOnly", .bool true), (ofAscii "const", .string (ofAscii "c"))],
      by decide⟩
  | 5 => oneField "enum" (.ref 6)
  | 6 => .array [.string (ofAscii "x"), .number (ofAscii "7")]

/-- `{"list":[first,second]}` -/
def listArgs (first second : String) : Json :=
  .object [(ofAscii "list", .array [.string (ofAscii first), .string (ofAscii second)])]

/-- The first element is not the constant. -/
def constUnit : ValidationUnit :=
  ⟨ofAscii "const", ofAscii "#/properties/list/prefixItems/0/const", ofAscii "#/list/0",
    ofAscii "Instance does not match \"c\".", none⟩

/-- The second element is neither of the values. -/
def enumUnit : ValidationUnit :=
  ⟨ofAscii "enum", ofAscii "#/properties/list/prefixItems/1/enum", ofAscii "#/list/1",
    ofAscii "Instance does not match any of [\"x\",7].", none⟩

/-- The names of a schema as they are. -/
def sameNames {Address : Type} (heap : Heap Address) : Renaming heap :=
  ⟨id, Function.injective_id, fun _ _ => rfl, fun _ _ => rfl, rfl⟩

theorem sameUnit_self {Address : Type} {heap : Heap Address} {unit : ValidationUnit}
    (hlocation : ∃ parts, unit.instanceLocation = pointerOf parts) :
    SameUnit (sameNames heap) unit unit := by
  obtain ⟨parts, hparts⟩ := hlocation
  exact ⟨rfl, rfl, rfl, rfl, parts, hparts, hparts.trans (by rw [sameNames, List.map_id])⟩

/-- The strings of a list make no difference, and the private constant is not told. -/
theorem findings_public_list :
    validationIssues privateFirst nameOrder 0 (listArgs "s" "p") [enumUnit] =
      validationIssues privateFirst nameOrder 0 (listArgs "t" "q") [enumUnit] ∧
    ∀ issues, validationIssues privateFirst nameOrder 0 (listArgs "s" "p") [constUnit] =
        some issues →
      ∀ issue ∈ issues, issueOf privateFirst 0 (factsOf privateFirst 0 (listArgs "s" "p")
        (redactCallArguments privateFirst nameOrder (listArgs "s" "p") 0).value
          constUnit).masked = some issue := by
  have hpublic := findings_public privateFirst nameOrder 0
  refine ⟨?_, fun issues hissues issue hmem => ?_⟩
  · refine hpublic.1 (sameNames privateFirst) _ _ _ _ ?_ (.cons ⟨?_, by decide +kernel⟩ .nil)
    · exact alike_object.mpr
        (.cons ⟨rfl, alike_array.mpr (.cons .string (.cons .string .nil))⟩ .nil)
    · exact sameUnit_self ⟨[ofAscii "list", ofAscii "1"], by decide⟩
  · obtain ⟨unit, hunit, -, -, hmasked⟩ := hpublic.2 _ _ issues hissues issue hmem
    obtain rfl := List.mem_singleton.mp hunit
    have hplainly : Plainly privateFirst 0 (.ref 0) [.key (ofAscii "list"), .index 0] 4 := by
      have hnames : ∀ fields, listing privateFirst fields = true → fields.get "properties" = none →
          ∀ index, declared privateFirst (JsString.decimal index) fields = none := by
        intro fields _ hnone index
        rw [declared, hnone]
        rfl
      refine .step rfl ⟨rfl, by decide, rfl, nofun⟩ (.property rfl rfl List.mem_cons_self) ?_
      refine .step rfl ⟨rfl, by decide, rfl, fun hlisting => ?_⟩ (.prefixItem rfl rfl)
        (.here rfl rfl)
      exact hnames _ hlisting rfl
    exact hmasked (@Sensitive.plainly _ _ _ _ _ _ _ _ [] _ (by decide) hplainly rfl)

/-- The list is left out with its private element, and a finding in it tells the values
of the other one. -/
theorem element_literal :
    (redactCallArguments privateFirst nameOrder (listArgs "s" "p") 0).value =
        some (.object []) ∧
      argumentAt (listArgs "s" "p") (ofAscii "#/list/1") = some (.string (ofAscii "p")) ∧
        argumentAt (.object []) (ofAscii "#/list/1") = none ∧
          validationIssues privateFirst nameOrder 0 (listArgs "s" "p") [enumUnit] =
            some [⟨ofAscii "/list/1", ofAscii "one of \"x\", 7", some (ofAscii "string")⟩] :=
  ⟨rfl, rfl, rfl, by decide +kernel⟩

end Connecta.Arguments
