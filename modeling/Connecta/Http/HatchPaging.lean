import Connecta.Foundation.OrderedMap
import Connecta.Http.FieldMasks
import Connecta.Runtime.Json
import Connecta.Writes.Failures

/-!
# Page tokens in field masks

A field mask that leaves out the page token would end a listing at its first page, so
the token is added to each mask before the request is sent.
-/

namespace Connecta.Http

open Connecta.Foundation
open Connecta.Runtime
open Connecta.Runtime.JsString (ofAscii)
open Connecta.Writes (ConnectorCallError)

/-- `[/(),]` -/
def separator (unit : CodeUnit) : Bool := unit ∈ ofAscii "/(),"

/-- `/^[A-Za-z0-9_*/(),]+$/` -/
def maskCharacters (mask : JsString) : Bool :=
  mask ≠ [] && mask.all fun unit => identifierPart unit || unit = ascii '*' || separator unit

/-- The matches that begin behind the identifier read so far. -/
def tokensFrom (identifier : JsString) : JsString → List JsString
  | [] => if identifier = [] then [] else [identifier]
  | unit :: rest =>
      if identifier ≠ [] ∧ identifierPart unit then tokensFrom (identifier ++ [unit]) rest
      else (if identifier = [] then [] else [identifier]) ++
        if identifierStart unit then tokensFrom [unit] rest
        else if unit = ascii '*' ∨ separator unit then [unit] :: tokensFrom [] rest
        else tokensFrom [] rest

/-- `mask.match(/[A-Za-z_][A-Za-z0-9_]*|\*|[/(),]/g) ?? []` -/
def maskTokens (mask : JsString) : List JsString := tokensFrom [] mask

structure MaskScan where
  depth : ℤ := 0
  hasToken : Bool := false
  name : Bool := true
  child : Bool := false
  valid : Bool

def nextPageToken : JsString := ofAscii "nextPageToken"

/-- One turn of the loop, between the tokens before and behind. -/
def MaskScan.step (scan : MaskScan) (previous : Option JsString) (token : JsString)
    (next : Option JsString) : MaskScan :=
  if token = ofAscii "(" then
    { scan with
      valid := scan.valid && !(scan.name || !scan.child)
      depth := scan.depth + 1
      name := true
      child := false }
  else if token = ofAscii ")" then
    { scan with
      valid := scan.valid && !(scan.name || scan.depth = 0)
      depth := scan.depth - 1
      name := false
      child := false }
  else if token = ofAscii "," then
    { scan with
      valid := scan.valid && !scan.name
      name := true
      child := false }
  else if token = ofAscii "/" then
    { scan with
      valid := scan.valid && !(scan.name || !scan.child)
      name := true
      child := false }
  else
    { scan with
      hasToken := scan.hasToken || (scan.depth = 0 &&
        (previous = none || previous = some (ofAscii ",")) && token = nextPageToken &&
        (next = none || next = some (ofAscii ",")))
      valid := scan.valid && scan.name
      name := false
      child := true }

def MaskScan.run (scan : MaskScan) (previous : Option JsString) : List JsString → MaskScan
  | [] => scan
  | token :: rest => (scan.step previous token rest.head?).run (some token) rest

/-- A query, each value absent where it is `undefined`. -/
abbrev HatchQuery := OrderedMap JsString (Option Json)

/-- `googlePageToken.prepareQuery(query)` -/
def prepareQuery (query : HatchQuery) : Except ConnectorCallError HatchQuery :=
  match (query.get? (ofAscii "fields")).join with
  | none => .ok query
  | some (.string mask) =>
      if maskCharacters mask then
        let tokens := maskTokens mask
        let scan := MaskScan.run { valid := tokens.flatten = mask } none tokens
        if !scan.valid || scan.name || scan.depth ≠ 0 then
          .error (.make .invalidArgs (ofAscii "query.fields has invalid selectors.") {})
        else if scan.hasToken then .ok query
        else .ok (query.set (ofAscii "fields") (some (.string (mask ++ ofAscii ",nextPageToken"))))
      else .error (.make .invalidArgs (ofAscii
        "query.fields must be a Google field mask; omit it to read the full JSON response.") {})
  | some _ => .error (.make .invalidArgs (ofAscii
      "query.fields must be a Google field mask; omit it to read the full JSON response.") {})

/-! ## Tokens -/

/-- Not the continuation of an identifier. -/
def Apart : JsString → Prop
  | [] => True
  | unit :: _ => identifierPart unit = false

theorem tokensFrom_identifier (parts : JsString)
    (hparts : ∀ part ∈ parts, identifierPart part = true)
    {rest : JsString} (hrest : Apart rest) {identifier : JsString} (hne : identifier ≠ []) :
    tokensFrom identifier (parts ++ rest) = (identifier ++ parts) :: tokensFrom [] rest := by
  induction parts generalizing identifier with
  | nil =>
      rw [List.nil_append, List.append_nil]
      cases rest with
      | nil => rw [tokensFrom, if_neg hne, tokensFrom, if_pos rfl]
      | cons unit rest =>
          have hunit : ¬ (identifier ≠ [] ∧ identifierPart unit = true) := fun h =>
            Bool.false_ne_true (hrest.symm.trans h.2)
          have hempty : ¬ (([] : JsString) ≠ [] ∧ identifierPart unit = true) := fun h => h.1 rfl
          rw [tokensFrom, if_neg hunit, if_neg hne, tokensFrom, if_neg hempty, if_pos rfl]
          rfl
  | cons part parts ih =>
      rw [List.forall_mem_cons] at hparts
      rw [List.cons_append, tokensFrom, if_pos ⟨hne, hparts.1⟩,
        ih hparts.2 (List.append_ne_nil_of_left_ne_nil hne _), List.append_assoc]
      rfl

theorem maskTokens_separator {unit : CodeUnit} (hunit : unit = ascii '*' ∨ separator unit = true)
    (rest : JsString) : maskTokens (unit :: rest) = [unit] :: maskTokens rest := by
  have hstart : identifierStart unit = false := by
    rcases hunit with rfl | hunit
    · decide
    · have hseparators : ((ofAscii "/(),").all fun unit => !identifierStart unit) = true := by
        decide
      exact Bool.not_eq_true' _ ▸ List.all_eq_true.mp hseparators unit (of_decide_eq_true hunit)
  rw [maskTokens, tokensFrom, if_neg fun h => h.1 rfl, if_pos rfl, hstart,
    if_neg Bool.false_ne_true, if_pos hunit]
  rfl

theorem maskTokens_name (name : FieldName) {rest : JsString} (hrest : Apart rest) :
    maskTokens (name.1 ++ rest) = name.1 :: maskTokens rest := by
  obtain ⟨text, hidentifier | rfl⟩ := name
  · cases text with
    | nil => exact hidentifier.elim
    | cons unit parts =>
        rw [maskTokens, List.cons_append, tokensFrom, if_neg fun h => h.1 rfl, if_pos rfl,
          if_pos hidentifier.1, List.nil_append,
          tokensFrom_identifier parts hidentifier.2 hrest (List.cons_ne_nil _ _)]
        rfl
  · exact maskTokens_separator (Or.inl rfl) rest

mutual

theorem Selectors.maskTokens_tokens (selectors : Selectors) {rest : JsString} (hrest : Apart rest) :
    maskTokens (selectors.tokens.flatten ++ rest) = selectors.tokens ++ maskTokens rest := by
  cases selectors with
  | one item =>
      rw [Selectors.tokens]
      exact item.maskTokens_tokens hrest
  | more item others =>
      have hcomma : Apart (ofAscii "," ++ (others.tokens.flatten ++ rest)) := rfl
      rw [Selectors.tokens, List.flatten_append, List.flatten_cons, List.append_assoc,
        List.append_assoc, item.maskTokens_tokens hcomma, List.append_assoc, List.cons_append,
        ← others.maskTokens_tokens hrest]
      exact congrArg (item.tokens ++ ·) (maskTokens_separator (Or.inr rfl) _)

theorem Selector.maskTokens_tokens (item : Selector) {rest : JsString} (hrest : Apart rest) :
    maskTokens (item.tokens.flatten ++ rest) = item.tokens ++ maskTokens rest := by
  cases item with
  | field name =>
      rw [Selector.tokens, List.flatten_singleton]
      exact maskTokens_name name hrest
  | nested name inner =>
      have hopen : Apart (ofAscii "(" ++ (inner.tokens.flatten ++ (ofAscii ")" ++ rest))) := rfl
      have hclose : Apart (ofAscii ")" ++ rest) := rfl
      have hlast : maskTokens (ofAscii ")" ++ rest) = ofAscii ")" :: maskTokens rest :=
        maskTokens_separator (Or.inr rfl) rest
      have hfirst : maskTokens (ofAscii "(" ++ (inner.tokens.flatten ++ (ofAscii ")" ++ rest))) =
          ofAscii "(" :: maskTokens (inner.tokens.flatten ++ (ofAscii ")" ++ rest)) :=
        maskTokens_separator (Or.inr rfl) _
      rw [Selector.tokens, List.flatten_cons, List.flatten_cons, List.flatten_append,
        List.flatten_singleton, List.append_assoc, List.append_assoc, List.append_assoc,
        maskTokens_name name hopen, hfirst, inner.maskTokens_tokens hclose, hlast,
        List.cons_append, List.cons_append, List.append_assoc]
      rfl
  | child name below =>
      have hslash : Apart (ofAscii "/" ++ (below.tokens.flatten ++ rest)) := rfl
      have hfirst : maskTokens (ofAscii "/" ++ (below.tokens.flatten ++ rest)) =
          ofAscii "/" :: maskTokens (below.tokens.flatten ++ rest) :=
        maskTokens_separator (Or.inr rfl) _
      rw [Selector.tokens, List.flatten_cons, List.flatten_cons, List.append_assoc,
        List.append_assoc, maskTokens_name name hslash, hfirst, below.maskTokens_tokens hrest]
      rfl

end

theorem identifier_cons {unit : CodeUnit} (hunit : identifierStart unit = true) {rest : JsString}
    (hrest : rest.all identifierPart = true) : Identifier (unit :: rest) :=
  ⟨hunit, List.all_eq_true.mp hrest⟩

theorem Identifier.append {text : JsString} (hidentifier : Identifier text) {unit : CodeUnit}
    (hunit : identifierPart unit = true) : Identifier (text ++ [unit]) := by
  cases text with
  | nil => exact hidentifier.elim
  | cons first rest =>
      refine ⟨hidentifier.1, fun part hmem => ?_⟩
      rcases List.mem_append.mp hmem with hrest | hlast
      · exact hidentifier.2 part hrest
      · rw [List.mem_singleton.mp hlast]
        exact hunit

/-- A token is a name or a separator. -/
def MaskToken (token : JsString) : Prop :=
  (Identifier token ∨ token = ofAscii "*") ∨ token = ofAscii "(" ∨ token = ofAscii ")" ∨
    token = ofAscii "," ∨ token = ofAscii "/"

theorem maskToken_mark {unit : CodeUnit} (hunit : unit = ascii '*' ∨ separator unit = true) :
    MaskToken [unit] := by
  rcases hunit with rfl | hunit
  · exact Or.inl (Or.inr rfl)
  · have hmem : unit ∈ ofAscii "/()," := of_decide_eq_true hunit
    change unit ∈ [ascii '/', ascii '(', ascii ')', ascii ','] at hmem
    simp only [List.mem_cons, List.not_mem_nil, or_false] at hmem
    rcases hmem with rfl | rfl | rfl | rfl
    · exact Or.inr (Or.inr (Or.inr (Or.inr rfl)))
    · exact Or.inr (Or.inl rfl)
    · exact Or.inr (Or.inr (Or.inl rfl))
    · exact Or.inr (Or.inr (Or.inr (Or.inl rfl)))

theorem maskToken_tokensFrom (mask : JsString) {identifier : JsString}
    (hidentifier : identifier = [] ∨ Identifier identifier) :
    ∀ token ∈ tokensFrom identifier mask, MaskToken token := by
  have hread {text : JsString} (htext : text = [] ∨ Identifier text) :
      ∀ token ∈ (if text = [] then [] else [text]), MaskToken token := by
    intro token hmem
    split_ifs at hmem with hempty
    · exact absurd hmem List.not_mem_nil
    · rw [List.mem_singleton.mp hmem]
      exact Or.inl (Or.inl (htext.resolve_left hempty))
  induction mask generalizing identifier with
  | nil => exact hread hidentifier
  | cons unit rest ih =>
      rw [tokensFrom]
      by_cases hpart : identifier ≠ [] ∧ identifierPart unit = true
      · rw [if_pos hpart]
        exact ih (Or.inr ((hidentifier.resolve_left hpart.1).append hpart.2))
      · rw [if_neg hpart]
        intro token hmem
        rcases List.mem_append.mp hmem with hbefore | hafter
        · exact hread hidentifier token hbefore
        by_cases hstart : identifierStart unit = true
        · rw [if_pos hstart] at hafter
          exact ih (Or.inr (identifier_cons hstart rfl)) token hafter
        rw [if_neg hstart] at hafter
        by_cases hmark : unit = ascii '*' ∨ separator unit = true
        · rw [if_pos hmark] at hafter
          rcases List.mem_cons.mp hafter with rfl | hrest
          · exact maskToken_mark hmark
          · exact ih (Or.inl rfl) token hrest
        · rw [if_neg hmark] at hafter
          exact ih (Or.inl rfl) token hafter

/-! ## Scanning -/

theorem FieldName.ne_separator (name : FieldName) : name.1 ≠ ofAscii "(" ∧
    name.1 ≠ ofAscii ")" ∧ name.1 ≠ ofAscii "," ∧ name.1 ≠ ofAscii "/" := by
  obtain ⟨text, hidentifier | rfl⟩ := name
  · cases text with
    | nil => exact hidentifier.elim
    | cons unit rest =>
        have hseparator (other : CodeUnit) (hother : identifierStart other = false) :
            unit :: rest ≠ [other] := by
          intro hsame
          obtain ⟨rfl, -⟩ := List.cons.inj hsame
          exact Bool.false_ne_true (hother.symm.trans hidentifier.1)
        exact ⟨hseparator (ascii '(') rfl, hseparator (ascii ')') rfl, hseparator (ascii ',') rfl,
          hseparator (ascii '/') rfl⟩
  · decide

namespace MaskScan

theorem step_name (scan : MaskScan) (previous next : Option JsString) (name : FieldName) :
    scan.step previous name.1 next =
      { scan with
        hasToken := scan.hasToken || (scan.depth = 0 &&
          (previous = none || previous = some (ofAscii ",")) && name.1 = nextPageToken &&
          (next = none || next = some (ofAscii ",")))
        valid := scan.valid && scan.name
        name := false
        child := true } := by
  obtain ⟨hopen, hclose, hcomma, hslash⟩ := name.ne_separator
  rw [step, if_neg hopen, if_neg hclose, if_neg hcomma, if_neg hslash]

theorem step_invalid {scan : MaskScan} (hinvalid : scan.valid = false)
    (previous : Option JsString) (token : JsString) (next : Option JsString) :
    (scan.step previous token next).valid = false := by
  rw [step]
  split_ifs <;> simp only [hinvalid, Bool.false_and]

/-- A scan that has found a fault keeps it. -/
theorem run_invalid {scan : MaskScan} (hinvalid : scan.valid = false)
    (previous : Option JsString) (tokens : List JsString) :
    (scan.run previous tokens).valid = false := by
  induction tokens generalizing scan previous with
  | nil => exact hinvalid
  | cons token rest ih => exact ih (step_invalid hinvalid previous token rest.head?) _

section Separators

variable {scan : MaskScan} (hvalid : scan.valid = true) (previous : Option JsString)
  (rest : List JsString)

include hvalid

theorem run_comma (hname : scan.name = false) : scan.run previous (ofAscii "," :: rest) =
    run { scan with name := true, child := false } (some (ofAscii ",")) rest := by
  rw [run, step, if_neg (by decide), if_neg (by decide), if_pos rfl, hvalid, hname]
  rfl

theorem run_slash (hname : scan.name = false) (hchild : scan.child = true) :
    scan.run previous (ofAscii "/" :: rest) =
      run { scan with name := true, child := false } (some (ofAscii "/")) rest := by
  rw [run, step, if_neg (by decide), if_neg (by decide), if_neg (by decide), if_pos rfl, hvalid,
    hname, hchild]
  rfl

theorem run_open (hname : scan.name = false) (hchild : scan.child = true) :
    scan.run previous (ofAscii "(" :: rest) =
      run { scan with depth := scan.depth + 1, name := true, child := false }
        (some (ofAscii "(")) rest := by
  rw [run, step, if_pos rfl, hvalid, hname, hchild]
  rfl

theorem run_close (hname : scan.name = false) (hdepth : scan.depth ≠ 0) :
    scan.run previous (ofAscii ")" :: rest) =
      run { scan with depth := scan.depth - 1, name := false, child := false }
        (some (ofAscii ")")) rest := by
  rw [run, step, if_neg (by decide), if_pos rfl, hvalid, hname, decide_eq_false hdepth]
  rfl

end Separators

end MaskScan

/-- The selector of the page token. -/
def tokenName : FieldName :=
  ⟨nextPageToken, Or.inl (@identifier_cons (ascii 'n') rfl (ofAscii "extPageToken") (by decide))⟩

def Selector.isToken : Selector → Bool
  | .field name => name.1 = nextPageToken
  | _ => false

def Selectors.hasToken (selectors : Selectors) : Bool := selectors.items.any Selector.isToken

/-- Outside parentheses, and where an item begins and ends. -/
def Edges (depth : ℤ) (previous next : Option JsString) : Bool :=
  depth = 0 && (previous = none || previous = some (ofAscii ",")) &&
    (next = none || next = some (ofAscii ","))

theorem edges_inside {depth : ℤ} (hinside : depth ≠ 0) (previous next : Option JsString) :
    Edges depth previous next = false := by
  rw [Edges, decide_eq_false hinside, Bool.false_and, Bool.false_and]

theorem edges_apart (depth : ℤ) (previous : Option JsString) {next : Option JsString}
    (hnext : (next = none || next = some (ofAscii ",")) = false) :
    Edges depth previous next = false := by
  rw [Edges, hnext, Bool.and_false]

theorem edges_split {depth : ℤ} {previous next : Option JsString}
    (hedges : Edges depth previous next = true) :
    Edges depth previous (some (ofAscii ",")) = true ∧
      Edges depth (some (ofAscii ",")) next = true := by
  rw [Edges, Bool.and_eq_true, Bool.and_eq_true] at hedges
  rw [Edges, Edges, hedges.1.1, hedges.1.2, hedges.2]
  exact ⟨rfl, rfl⟩

theorem MaskScan.run_name {scan : MaskScan} (hvalid : scan.valid = true) (hname : scan.name = true)
    (previous : Option JsString) (name : FieldName) (rest : List JsString) :
    scan.run previous (name.1 :: rest) =
      run { scan with
        hasToken := scan.hasToken ||
          (Edges scan.depth previous rest.head? && (Selector.field name).isToken)
        name := false
        child := true } (some name.1) rest := by
  rw [run, step_name, hvalid, hname, Selector.isToken, Edges]
  simp only [Bool.and_assoc, Bool.and_comm, Bool.true_and]

mutual

theorem Selectors.run_tokens (selectors : Selectors) {scan : MaskScan} (hvalid : scan.valid = true)
    (hname : scan.name = true) (hdepth : 0 ≤ scan.depth) (previous : Option JsString)
    (rest : List JsString) :
    ∃ hasToken child last, scan.run previous (selectors.tokens ++ rest) =
      MaskScan.run { scan with hasToken, name := false, child } (some last) rest ∧
      (scan.depth ≠ 0 → hasToken = scan.hasToken) ∧
      (Edges scan.depth previous rest.head? = true →
        hasToken = (scan.hasToken || selectors.hasToken)) := by
  cases selectors with
  | one item =>
      obtain ⟨child, last, hrun⟩ := item.run_tokens hvalid hname hdepth previous rest
      refine ⟨_, child, last, hrun, fun hinside => ?_, fun hedges => ?_⟩
      · rw [edges_inside hinside, Bool.false_and, Bool.or_false]
      · rw [hedges, Bool.true_and, Selectors.hasToken, Selectors.items, List.any_cons,
          List.any_nil, Bool.or_false]
  | more item others =>
      obtain ⟨_, last, hrun⟩ := item.run_tokens hvalid hname hdepth previous
        (ofAscii "," :: (others.tokens ++ rest))
      obtain ⟨hasToken, child, last', hothers, hinside, hedges⟩ := @Selectors.run_tokens others
        { scan with
          hasToken := scan.hasToken || (Edges scan.depth previous (some (ofAscii ",")) &&
            item.isToken)
          name := true
          child := false } hvalid rfl hdepth (some (ofAscii ",")) rest
      refine ⟨hasToken, child, last', ?_, fun hdeep => ?_, fun houter => ?_⟩
      · rw [Selectors.tokens, List.append_assoc, List.cons_append, hrun]
        exact (MaskScan.run_comma (by exact hvalid) _ _ rfl).trans hothers
      · rw [hinside hdeep, edges_inside hdeep, Bool.false_and, Bool.or_false]
      · obtain ⟨hfirst, hlast⟩ := edges_split houter
        rw [hedges hlast, hfirst, Bool.true_and, Bool.or_assoc]
        rfl

theorem Selector.run_tokens (item : Selector) {scan : MaskScan} (hvalid : scan.valid = true)
    (hname : scan.name = true) (hdepth : 0 ≤ scan.depth) (previous : Option JsString)
    (rest : List JsString) :
    ∃ child last, scan.run previous (item.tokens ++ rest) =
      MaskScan.run
        { scan with
          hasToken := scan.hasToken || (Edges scan.depth previous rest.head? && item.isToken)
          name := false
          child } (some last) rest := by
  cases item with
  | field name => exact ⟨true, name.1, MaskScan.run_name hvalid hname previous name rest⟩
  | nested name inner =>
      have hopen := MaskScan.run_name hvalid hname previous name
        (ofAscii "(" :: (inner.tokens ++ ofAscii ")" :: rest))
      have hkept : (scan.hasToken || (Edges scan.depth previous (some (ofAscii "(")) &&
          (Selector.field name).isToken)) = scan.hasToken := by
        rw [edges_apart _ _ (by decide), Bool.false_and, Bool.or_false]
      rw [List.head?_cons, hkept] at hopen
      have hinside : scan.depth + 1 ≠ 0 := by omega
      obtain ⟨hasToken, child, last, hinner, hsame, -⟩ := @Selectors.run_tokens inner
        { scan with depth := scan.depth + 1, name := true, child := false } hvalid rfl
        (Int.add_nonneg hdepth (by decide)) (some (ofAscii "(")) (ofAscii ")" :: rest)
      obtain rfl := hsame hinside
      refine ⟨false, ofAscii ")", ?_⟩
      rw [Selector.tokens, List.cons_append, List.cons_append, List.append_assoc,
        List.singleton_append, hopen]
      refine (MaskScan.run_open (by exact hvalid) _ _ rfl rfl).trans (hinner.trans ?_)
      refine (MaskScan.run_close (by exact hvalid) _ _ rfl hinside).trans ?_
      have hback : scan.depth + 1 - 1 = scan.depth := by omega
      have hnested : (Selector.nested name inner).isToken = false := rfl
      dsimp only
      rw [hback, hnested, Bool.and_false, Bool.or_false]
  | child name below =>
      have hslash := MaskScan.run_name hvalid hname previous name
        (ofAscii "/" :: (below.tokens ++ rest))
      have hkept : (scan.hasToken || (Edges scan.depth previous (some (ofAscii "/")) &&
          (Selector.field name).isToken)) = scan.hasToken := by
        rw [edges_apart _ _ (by decide), Bool.false_and, Bool.or_false]
      rw [List.head?_cons, hkept] at hslash
      obtain ⟨child, last, hbelow⟩ := @Selector.run_tokens below
        { scan with name := true, child := false } hvalid rfl hdepth
        (some (ofAscii "/")) rest
      refine ⟨child, last, ?_⟩
      rw [Selector.tokens, List.cons_append, List.cons_append, hslash]
      refine (MaskScan.run_slash (by exact hvalid) _ _ rfl rfl).trans (hbelow.trans ?_)
      have hapart : Edges scan.depth (some (ofAscii "/")) rest.head? = false := by
        rw [Edges, Bool.and_assoc]
        exact Bool.and_false _
      have hchild : (Selector.child name below).isToken = false := rfl
      rw [hapart, hchild, Bool.and_false, Bool.false_and]

end

/-! ## Derivations -/

/-- A scan that has read a whole mask. -/
def MaskScan.Done (scan : MaskScan) : Prop :=
  scan.valid = true ∧ scan.name = false ∧ scan.depth = 0

/-- The first token where a name is due is a name. -/
theorem exists_name {scan : MaskScan} (hname : scan.name = true) {previous : Option JsString}
    {tokens : List JsString} (htokens : ∀ token ∈ tokens, MaskToken token)
    (hdone : (scan.run previous tokens).Done) :
    ∃ (name : FieldName) (rest : List JsString), tokens = name.1 :: rest := by
  cases tokens with
  | nil => exact absurd (hname.symm.trans hdone.2.1) Bool.noConfusion
  | cons token rest =>
      rcases htokens token List.mem_cons_self with hidentifier | hseparator
      · exact ⟨⟨token, hidentifier⟩, rest, rfl⟩
      · have hinvalid : (scan.step previous token rest.head?).valid = false := by
          rw [MaskScan.step]
          rcases hseparator with rfl | rfl | rfl | rfl
          · rw [if_pos rfl, hname]
            exact Bool.and_false _
          · rw [if_neg (by decide), if_pos rfl, hname]
            exact Bool.and_false _
          · rw [if_neg (by decide), if_neg (by decide), if_pos rfl, hname]
            exact Bool.and_false _
          · rw [if_neg (by decide), if_neg (by decide), if_neg (by decide), if_pos rfl, hname]
            exact Bool.and_false _
        have hfault := MaskScan.run_invalid hinvalid (some token) rest
        exact absurd (hfault.symm.trans hdone.1) Bool.noConfusion

/-- Behind a name comes a separator or the end. -/
theorem separator_next {scan : MaskScan} (hname : scan.name = false) {previous : Option JsString}
    {tokens : List JsString} (htokens : ∀ token ∈ tokens, MaskToken token)
    (hdone : (scan.run previous tokens).Done) :
    tokens = [] ∨ ∃ rest, tokens = ofAscii "," :: rest ∨ tokens = ofAscii ")" :: rest ∨
      scan.child = true ∧ (tokens = ofAscii "/" :: rest ∨ tokens = ofAscii "(" :: rest) := by
  cases tokens with
  | nil => exact Or.inl rfl
  | cons token rest =>
      have hfault (hinvalid : (scan.step previous token rest.head?).valid = false) : False :=
        Bool.noConfusion ((MaskScan.run_invalid hinvalid (some token) rest).symm.trans hdone.1)
      refine Or.inr ⟨rest, ?_⟩
      rcases htokens token List.mem_cons_self with hidentifier | rfl | rfl | rfl | rfl
      · exfalso
        apply hfault
        have hstep := scan.step_name previous rest.head? ⟨token, hidentifier⟩
        rw [hstep, hname]
        exact Bool.and_false _
      · cases hchild : scan.child with
        | true => exact Or.inr (Or.inr ⟨rfl, Or.inr rfl⟩)
        | false =>
            exfalso
            apply hfault
            rw [MaskScan.step, if_pos rfl, hname, hchild]
            exact Bool.and_false _
      · exact Or.inr (Or.inl rfl)
      · exact Or.inl rfl
      · cases hchild : scan.child with
        | true => exact Or.inr (Or.inr ⟨rfl, Or.inl rfl⟩)
        | false =>
            exfalso
            apply hfault
            rw [MaskScan.step, if_neg (by decide), if_neg (by decide), if_neg (by decide),
              if_pos rfl, hname, hchild]
            exact Bool.and_false _

/-- The rest behind an item of a list. -/
def ItemEnd (rest : List JsString) : Prop :=
  rest = [] ∨ ∃ tail, rest = ofAscii "," :: tail ∨ rest = ofAscii ")" :: tail

/-- The rest behind a list. -/
def ListEnd (rest : List JsString) : Prop :=
  rest = [] ∨ ∃ tail, rest = ofAscii ")" :: tail

/-- A scan that ends well, from where a name is due, over no more tokens than a length. -/
structure Reading (length : ℕ) (scan : MaskScan) (previous : Option JsString)
    (tokens : List JsString) : Prop where
  short : tokens.length ≤ length
  kinds : ∀ token ∈ tokens, MaskToken token
  valid : scan.valid = true
  name : scan.name = true
  depth : 0 ≤ scan.depth
  done : (scan.run previous tokens).Done

def ReadsItem (length : ℕ) : Prop :=
  ∀ ⦃scan : MaskScan⦄ ⦃previous : Option JsString⦄ ⦃tokens : List JsString⦄,
    Reading length scan previous tokens →
      ∃ (item : Selector) (rest : List JsString), tokens = item.tokens ++ rest ∧ ItemEnd rest

def ReadsList (length : ℕ) : Prop :=
  ∀ ⦃scan : MaskScan⦄ ⦃previous : Option JsString⦄ ⦃tokens : List JsString⦄,
    Reading length scan previous tokens →
      ∃ (list : Selectors) (rest : List JsString), tokens = list.tokens ++ rest ∧ ListEnd rest

theorem readsItem_succ {length : ℕ} (hitem : ReadsItem length) (hlist : ReadsList length) :
    ReadsItem (length + 1) := by
  intro scan previous tokens hreading
  obtain ⟨name, rest, rfl⟩ := exists_name hreading.name hreading.kinds hreading.done
  have hkinds := (List.forall_mem_cons.mp hreading.kinds).2
  have hshort : rest.length ≤ length := Nat.le_of_succ_le_succ hreading.short
  have hdone := hreading.done
  rw [MaskScan.run_name hreading.valid hreading.name] at hdone
  rcases separator_next rfl hkinds hdone with rfl | ⟨tail, rfl | rfl | ⟨-, rfl | rfl⟩⟩
  · exact ⟨.field name, [], rfl, Or.inl rfl⟩
  · exact ⟨.field name, _, rfl, Or.inr ⟨tail, Or.inl rfl⟩⟩
  · exact ⟨.field name, _, rfl, Or.inr ⟨tail, Or.inr rfl⟩⟩
  · rw [MaskScan.run_slash (by exact hreading.valid) _ _ rfl rfl] at hdone
    obtain ⟨item, rest, rfl, hend⟩ := hitem ⟨(Nat.le_succ _).trans hshort,
      (List.forall_mem_cons.mp hkinds).2, by exact hreading.valid, rfl,
      by exact hreading.depth, hdone⟩
    exact ⟨.child name item, rest, rfl, hend⟩
  · rw [MaskScan.run_open (by exact hreading.valid) _ _ rfl rfl] at hdone
    have hdepth : 0 ≤ scan.depth + 1 := Int.add_nonneg hreading.depth (by decide)
    have hinside : Reading length _ _ tail := ⟨(Nat.le_succ _).trans hshort,
      (List.forall_mem_cons.mp hkinds).2, by exact hreading.valid, rfl, by exact hdepth, hdone⟩
    obtain ⟨list, rest, rfl, hend⟩ := hlist hinside
    obtain ⟨hasToken, child, last, hrun, -⟩ := list.run_tokens hinside.valid hinside.name
      hinside.depth _ rest
    rw [hrun] at hdone
    have hnested : scan.depth + 1 ≠ 0 := by
      have := hreading.depth
      omega
    rcases hend with rfl | ⟨tail, rfl⟩
    · exact absurd hdone.2.2 hnested
    rw [MaskScan.run_close (by exact hreading.valid) _ _ rfl (by exact hnested)] at hdone
    have hlast : ItemEnd tail := by
      have hrest : ∀ token ∈ tail, MaskToken token := fun token hmem =>
        hkinds token (by simp [hmem])
      rcases separator_next rfl hrest hdone with rfl | ⟨rest, rfl | rfl | ⟨hchild, -⟩⟩
      · exact Or.inl rfl
      · exact Or.inr ⟨rest, Or.inl rfl⟩
      · exact Or.inr ⟨rest, Or.inr rfl⟩
      · exact absurd hchild Bool.noConfusion
    refine ⟨.nested name list, tail, ?_, hlast⟩
    rw [Selector.tokens, List.cons_append, List.cons_append, List.append_assoc]
    rfl

theorem Selector.tokens_ne_nil (item : Selector) : item.tokens ≠ [] := by
  cases item <;> rw [Selector.tokens] <;> exact List.cons_ne_nil _ _

theorem readsList_succ {length : ℕ} (hitem : ReadsItem (length + 1)) (hlist : ReadsList length) :
    ReadsList (length + 1) := by
  intro scan previous tokens hreading
  obtain ⟨item, rest, rfl, hend⟩ := hitem hreading
  rcases hend with rfl | ⟨tail, rfl | rfl⟩
  · exact ⟨.one item, [], rfl, Or.inl rfl⟩
  · have hdone := hreading.done
    obtain ⟨child, last, hrun⟩ := item.run_tokens hreading.valid hreading.name hreading.depth
      previous (ofAscii "," :: tail)
    rw [hrun, MaskScan.run_comma (by exact hreading.valid) _ _ rfl] at hdone
    have hshort : tail.length ≤ length := by
      have := hreading.short
      rw [List.length_append, List.length_cons] at this
      omega
    have hkinds : ∀ token ∈ tail, MaskToken token := fun token hmem =>
      hreading.kinds token (List.mem_append_right _ (List.mem_cons_of_mem _ hmem))
    obtain ⟨list, rest, rfl, hend⟩ := hlist ⟨hshort, hkinds, by exact hreading.valid, rfl,
      by exact hreading.depth, hdone⟩
    refine ⟨.more item list, rest, ?_, hend⟩
    rw [Selectors.tokens, List.append_assoc]
    rfl
  · exact ⟨.one item, _, rfl, Or.inr ⟨tail, rfl⟩⟩

theorem reads (length : ℕ) : ReadsItem length ∧ ReadsList length := by
  induction length with
  | zero =>
      have hfalse {scan : MaskScan} {previous : Option JsString} {tokens : List JsString}
          (hreading : Reading 0 scan previous tokens) : False := by
        obtain ⟨name, rest, rfl⟩ := exists_name hreading.name hreading.kinds hreading.done
        exact absurd hreading.short (Nat.not_succ_le_zero _)
      exact ⟨fun _ _ _ hreading => (hfalse hreading).elim,
        fun _ _ _ hreading => (hfalse hreading).elim⟩
  | succ length ih =>
      have hitem := readsItem_succ ih.1 ih.2
      exact ⟨hitem, readsList_succ hitem ih.2⟩

/-! ## Accepted masks -/

/-- The scan of a whole mask. -/
def maskScan (mask : JsString) : MaskScan :=
  MaskScan.run { valid := (maskTokens mask).flatten = mask } none (maskTokens mask)

theorem maskTokens_text (selectors : Selectors) : maskTokens selectors.text = selectors.tokens := by
  have htokens := @Selectors.maskTokens_tokens selectors [] trivial
  rwa [List.append_nil, show maskTokens [] = [] from rfl, List.append_nil] at htokens

theorem maskScan_text (selectors : Selectors) : ∃ child, maskScan selectors.text =
    { hasToken := selectors.hasToken, name := false, child, valid := true } := by
  obtain ⟨hasToken, child, last, hrun, -, hedges⟩ := @Selectors.run_tokens selectors
    { valid := true } rfl rfl le_rfl none []
  refine ⟨child, ?_⟩
  have hflatten : selectors.tokens.flatten = selectors.text := rfl
  rw [List.append_nil, hedges rfl] at hrun
  rw [maskScan, maskTokens_text, hflatten, decide_eq_true rfl]
  exact hrun

theorem exists_selectors {mask : JsString} (hdone : (maskScan mask).Done) :
    ∃ selectors : Selectors, selectors.text = mask := by
  have hkinds := maskToken_tokensFrom mask (Or.inl rfl)
  have hflatten : (maskTokens mask).flatten = mask := by
    by_contra hother
    have hinvalid := @MaskScan.run_invalid { valid := (maskTokens mask).flatten = mask }
      (decide_eq_false hother) none (maskTokens mask)
    exact Bool.noConfusion (hinvalid.symm.trans hdone.1)
  rw [maskScan, decide_eq_true hflatten] at hdone
  have hreading : Reading _ { valid := true } none (maskTokens mask) :=
    ⟨le_rfl, hkinds, rfl, rfl, le_rfl, hdone⟩
  obtain ⟨list, rest, htokens, hend⟩ := (reads _).2 hreading
  rcases hend with rfl | ⟨tail, rfl⟩
  · rw [htokens, List.append_nil] at hflatten
    exact ⟨list, hflatten⟩
  · -- A closing parenthesis outside every parenthesis is a fault.
    obtain ⟨hasToken, child, last, hrun, -⟩ := @Selectors.run_tokens list { valid := true } rfl rfl
      le_rfl none (ofAscii ")" :: tail)
    rw [htokens, hrun, MaskScan.run] at hdone
    have hfault : ∀ scan : MaskScan, scan.depth = 0 →
        (scan.step (some last) (ofAscii ")") tail.head?).valid = false := by
      intro scan hdepth
      rw [MaskScan.step, if_neg (by decide), if_pos rfl, hdepth, Bool.and_eq_false_iff]
      exact Or.inr (congrArg not (Bool.or_true _))
    have hinvalid := MaskScan.run_invalid
      (hfault { hasToken, name := false, child, valid := true } rfl) (some (ofAscii ")")) tail
    exact absurd (hinvalid.symm.trans hdone.1) Bool.noConfusion

theorem MaskToken.characters {token : JsString} (htoken : MaskToken token) :
    ∀ unit ∈ token, (identifierPart unit || unit = ascii '*' || separator unit) = true := by
  rcases htoken with (hidentifier | rfl) | rfl | rfl | rfl | rfl
  · cases token with
    | nil => exact nofun
    | cons first rest =>
        intro unit hmem
        have hpart : identifierPart unit = true := by
          rcases List.mem_cons.mp hmem with rfl | hrest
          · rw [identifierPart, hidentifier.1, Bool.true_or]
          · exact hidentifier.2 unit hrest
        rw [hpart, Bool.true_or, Bool.true_or]
  all_goals exact List.all_eq_true.mp (by decide)

theorem Selectors.tokens_ne_nil (selectors : Selectors) : selectors.tokens ≠ [] := by
  cases selectors with
  | one item => exact item.tokens_ne_nil
  | more item rest =>
      rw [tokens]
      exact List.append_ne_nil_of_left_ne_nil item.tokens_ne_nil _

theorem maskCharacters_text (selectors : Selectors) : maskCharacters selectors.text = true := by
  have htokens := maskTokens_text selectors
  have hne : selectors.text ≠ [] := by
    intro hempty
    rw [hempty] at htokens
    exact selectors.tokens_ne_nil htokens.symm
  have hunits : ∀ unit ∈ selectors.text,
      (identifierPart unit || unit = ascii '*' || separator unit) = true := by
    intro unit hmem
    obtain ⟨token, htoken, hunit⟩ := List.mem_flatten.mp hmem
    rw [← htokens] at htoken
    exact (maskToken_tokensFrom selectors.text (Or.inl rfl) token htoken).characters unit hunit
  rw [maskCharacters, decide_eq_true hne, List.all_eq_true.mpr hunits]
  rfl

theorem Selectors.mem_items_of_hasToken {selectors : Selectors}
    (htoken : selectors.hasToken = true) : Selector.field tokenName ∈ selectors.items := by
  obtain ⟨item, hmem, hitem⟩ := List.any_eq_true.mp htoken
  cases item with
  | field name =>
      have hname : name = tokenName := Subtype.ext (of_decide_eq_true hitem)
      exact hname ▸ hmem
  | nested name inner => exact absurd hitem Bool.noConfusion
  | child name below => exact absurd hitem Bool.noConfusion

section Queries

variable {query : HatchQuery}

theorem prepareQuery_eq {mask : JsString}
    (hmask : query.get? (ofAscii "fields") = some (some (.string mask)))
    (hcharacters : maskCharacters mask = true) :
    prepareQuery query =
      if !(maskScan mask).valid || (maskScan mask).name || (maskScan mask).depth ≠ 0 then
        .error (.make .invalidArgs (ofAscii "query.fields has invalid selectors.") {})
      else if (maskScan mask).hasToken then .ok query
      else .ok (query.set (ofAscii "fields")
        (some (.string (mask ++ ofAscii ",nextPageToken")))) := by
  rw [prepareQuery, hmask]
  exact if_pos hcharacters

theorem prepareQuery_text {selectors : Selectors}
    (hmask : query.get? (ofAscii "fields") = some (some (.string selectors.text))) :
    prepareQuery query = .ok (if selectors.hasToken then query else
      query.set (ofAscii "fields")
        (some (.string (selectors.append (.field tokenName)).text))) := by
  obtain ⟨child, hscan⟩ := maskScan_text selectors
  have happend : (selectors.append (.field tokenName)).text =
      selectors.text ++ ofAscii ",nextPageToken" := by
    rw [Selectors.text, Selectors.tokens_append, List.flatten_append]
    rfl
  rw [prepareQuery_eq hmask (maskCharacters_text selectors), hscan, happend]
  cases selectors.hasToken <;> rfl

theorem exists_selectors_of_ok {mask : JsString}
    (hmask : query.get? (ofAscii "fields") = some (some (.string mask))) {prepared : HatchQuery}
    (hprepared : prepareQuery query = .ok prepared) :
    ∃ selectors : Selectors, selectors.text = mask := by
  apply exists_selectors
  by_cases hcharacters : maskCharacters mask = true
  · rw [prepareQuery_eq hmask hcharacters] at hprepared
    split at hprepared
    · exact absurd hprepared nofun
    · rename_i hsound
      rw [Bool.or_eq_true, Bool.or_eq_true, not_or, not_or, decide_eq_true_eq, not_not] at hsound
      obtain ⟨⟨hvalid, hname⟩, hdepth⟩ := hsound
      refine ⟨?_, ?_, hdepth⟩
      · rwa [Bool.not_eq_true', Bool.not_eq_false] at hvalid
      · rwa [Bool.not_eq_true] at hname
  · rw [prepareQuery, hmask] at hprepared
    have herror := (if_neg hcharacters).symm.trans hprepared
    exact absurd herror nofun

end Queries

theorem prepareQuery_mask (query : HatchQuery) (mask : JsString)
    (hmask : query.get? (ofAscii "fields") = some (some (.string mask))) :
    ((∃ prepared, prepareQuery query = .ok prepared) ↔
      ∃ selectors : Selectors, selectors.text = mask) ∧
    ∀ prepared, prepareQuery query = .ok prepared →
      prepareQuery prepared = .ok prepared ∧
      (∀ name ≠ ofAscii "fields", prepared.get? name = query.get? name) ∧
      ∃ mask', prepared.get? (ofAscii "fields") = some (some (.string mask')) ∧
        ∀ selectors : Selectors, selectors.text = mask → ∃ selectors' : Selectors,
          selectors'.text = mask' ∧ .field tokenName ∈ selectors'.items ∧
            ∀ path, selectors.Selects path → selectors'.Selects path := by
  refine ⟨⟨fun ⟨prepared, hprepared⟩ => exists_selectors_of_ok hmask hprepared, ?_⟩, ?_⟩
  · rintro ⟨selectors, rfl⟩
    exact ⟨_, prepareQuery_text hmask⟩
  intro prepared hprepared
  obtain ⟨known, rfl⟩ := exists_selectors_of_ok hmask hprepared
  -- Every derivation of the mask answers alike whether the token is in it.
  have hsame (selectors : Selectors) (htext : selectors.text = known.text) :
      selectors.hasToken = known.hasToken := by
    obtain ⟨_, hscan⟩ := maskScan_text selectors
    obtain ⟨_, hknown⟩ := maskScan_text known
    rw [htext, hknown] at hscan
    exact (congrArg MaskScan.hasToken hscan).symm
  rw [prepareQuery_text hmask] at hprepared
  obtain rfl := Except.ok.inj hprepared
  cases htoken : known.hasToken with
  | true =>
      rw [if_pos rfl]
      refine ⟨?_, fun _ _ => rfl, known.text, hmask, fun selectors htext => ?_⟩
      · rw [prepareQuery_text hmask, htoken]
        rfl
      · exact ⟨selectors, htext,
          Selectors.mem_items_of_hasToken ((hsame selectors htext).trans htoken), fun _ => id⟩
  | false =>
      rw [if_neg Bool.false_ne_true]
      have hset := query.get?_set_self (ofAscii "fields")
        (some (Json.string (known.append (.field tokenName)).text))
      have hadded : (known.append (.field tokenName)).hasToken = true := by
        rw [Selectors.hasToken, Selectors.items_append, List.any_append]
        exact Bool.or_true _
      refine ⟨?_, fun name hname => query.get?_set_of_ne _ hname, _, hset,
        fun selectors htext => ⟨selectors.append (.field tokenName), ?_, ?_, ?_⟩⟩
      · rw [prepareQuery_text hset, hadded]
        rfl
      · rw [Selectors.text, Selectors.tokens_append, List.flatten_append, ← Selectors.text, htext,
          Selectors.text, Selectors.text, Selectors.tokens_append, List.flatten_append]
      · rw [Selectors.items_append]
        exact List.mem_append_right _ (List.mem_singleton_self _)
      · intro path hpath
        exact (Selectors.selects_append _ _ _).mpr (Or.inl hpath)

theorem prepareQuery_mask_example :
    ∃ selectors : Selectors, selectors.text = ofAscii "files(id,name),kind" := by
  have hmask : (OrderedMap.set OrderedMap.empty (ofAscii "fields")
      (some (Json.string (ofAscii "files(id,name),kind")))).get? (ofAscii "fields") =
        some (some (.string (ofAscii "files(id,name),kind"))) :=
    OrderedMap.get?_set_self _ _ _
  apply (prepareQuery_mask _ _ hmask).1.mp
  refine ⟨_, prepareQuery_eq hmask (by decide)⟩

end Connecta.Http
