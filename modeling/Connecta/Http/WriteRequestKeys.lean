import Connecta.Foundation.Multimaps
import Connecta.Http.WriteRequest
import Connecta.Runtime.JsonText

/-!
# What a write item's key says

The key of a write item is equal to another's exactly where they are the same request:
the same path, each name with the same values in the same order, and the same document
as a tree whose objects have for each name its values.
-/

namespace Connecta.Http

open Connecta.Foundation
open Connecta.Runtime
open Connecta.Runtime.JsString (ofAscii)

/-! ## Documents as trees -/

/-- A document; a number is its lexeme. -/
inductive Tree where
  | null
  | bool (value : Bool)
  | number (lexeme : JsString)
  | string (text : JsString)
  | array (elements : List Tree)
  | object (values : JsString → List Tree)

mutual

def treeOf : Json → Tree
  | .null => .null
  | .bool value => .bool value
  | .number lexeme => .number lexeme
  | .string text => .string text
  | .array elements => .array (elementTrees elements)
  | .object members => .object fun name => Multimap.values name (memberTrees members)

def elementTrees : List Json → List Tree
  | [] => []
  | element :: rest => treeOf element :: elementTrees rest

def memberTrees : List (JsString × Json) → List (JsString × Tree)
  | [] => []
  | (name, value) :: rest => (name, treeOf value) :: memberTrees rest

end

/-- A name that repeats is declared. -/
def RepeatsDeclared (names allowed : List JsString) : Prop :=
  ∀ name, 2 ≤ names.count name → name ∈ allowed

mutual

/-- Every name that repeats in an object is declared at the object's place. -/
def Declared (allowed : List JsString) (path : JsString) : Json → Prop
  | .array elements => ElementsDeclared allowed path 0 elements
  | .object members =>
      (∀ name, 2 ≤ (members.map Prod.fst).count name → pointer path name ∈ allowed) ∧
        MembersDeclared allowed path members
  | _ => True

def ElementsDeclared (allowed : List JsString) (path : JsString) (index : ℕ) : List Json → Prop
  | [] => True
  | element :: rest => Declared allowed (path ++ ascii '/' :: decimal index) element ∧
      ElementsDeclared allowed path (index + 1) rest

def MembersDeclared (allowed : List JsString) (path : JsString) :
    List (JsString × Json) → Prop
  | [] => True
  | (name, value) :: rest => Declared allowed (pointer path name) value ∧
      MembersDeclared allowed path rest

end

/-! ## Expressions of JSON texts -/

mutual

/-- An expression read from the text of a value: its objects keep every property, with the
text of its key, and a scalar keeps its own text. -/
inductive Spells : Expression → Json → Prop where
  | object {properties : List Property} {members : List (JsString × Json)} :
      SpellsMembers properties members → Spells (.object properties) (.object members)
  | array {expressions : List Expression} {elements : List Json} :
      SpellsElements expressions elements → Spells (.array expressions) (.array elements)
  | number {unit : CodeUnit} {rest : JsString} :
      (unit = ascii '-' || Json.digit unit) = true →
      Spells (.other (unit :: rest)) (.number (unit :: rest))
  | scalar {unit : CodeUnit} {rest : JsString} {value : Json} :
      (unit = ascii '-' || Json.digit unit) = false →
      Json.parse (unit :: rest) = some value →
      value = .null ∨ (∃ flag, value = .bool flag) ∨ (∃ text, value = .string text) →
      Spells (.other (unit :: rest)) value

inductive SpellsElements : List Expression → List Json → Prop where
  | nil : SpellsElements [] []
  | cons {expression : Expression} {expressions : List Expression} {element : Json}
      {elements : List Json} : Spells expression element → SpellsElements expressions elements →
      SpellsElements (expression :: expressions) (element :: elements)

inductive SpellsMembers : List Property → List (JsString × Json) → Prop where
  | nil : SpellsMembers [] []
  | cons {name : JsString} {expression : Expression} {properties : List Property} {value : Json}
      {members : List (JsString × Json)} : Spells expression value →
      SpellsMembers properties members →
      SpellsMembers (.literal name expression :: properties) ((name, value) :: members)

end

/-! ## Sorted names -/

/-- Names in the order of their code units. -/
def sortedPairs {Value : Type} (pairs : List (JsString × Value)) : List (JsString × Value) :=
  pairs.insertionSort fun first second => ¬ second.1 < first.1

theorem sortedPairs_eq_iff {Value : Type} (left right : List (JsString × Value)) :
    sortedPairs left = sortedPairs right ↔
      ∀ name, Multimap.values name left = Multimap.values name right := by
  rw [sortedPairs, sortedPairs]
  exact Multimap.insertionSort_eq_iff (fun first second : JsString => ¬ second < first)
    (fun _ _ hfirst hsecond => List.le_antisymm hfirst hsecond)
    (fun _ _ _ hfirst hsecond => List.le_trans hfirst hsecond) List.le_total left right

theorem not_duplicated {allowed : List JsString} (names seen : List JsString)
    (hnone : duplicated allowed seen names = false) :
    (∀ name ∈ names, name ∈ seen → name ∈ allowed) ∧ RepeatsDeclared names allowed := by
  induction names generalizing seen with
  | nil => exact ⟨nofun, fun name hcount => absurd hcount (by simp)⟩
  | cons first rest ih =>
      rw [duplicated, Bool.or_eq_false_iff] at hnone
      obtain ⟨hseen, hrepeats⟩ := ih (first :: seen) hnone.2
      have hfirst : first ∈ seen → first ∈ allowed := by
        intro hmem
        simpa [hmem] using hnone.1
      refine ⟨?_, ?_⟩
      · intro name hmem hbefore
        rcases List.mem_cons.mp hmem with rfl | hrest
        · exact hfirst hbefore
        · exact hseen name hrest (List.mem_cons_of_mem _ hbefore)
      · intro name hcount
        by_cases hname : first = name
        · subst hname
          rw [List.count_cons_self] at hcount
          have hagain : first ∈ rest := List.count_pos_iff.mp (by omega)
          exact hseen first hagain List.mem_cons_self
        · rw [List.count_cons_of_ne hname] at hcount
          exact hrepeats name hcount

theorem ordered_eq_some {Value : Type} {pairs sorted : List (JsString × Value)}
    {allowed : List JsString} (hordered : ordered pairs allowed = some sorted) :
    sorted = sortedPairs pairs ∧ RepeatsDeclared (pairs.map Prod.fst) allowed := by
  rw [ordered] at hordered
  split_ifs at hordered with hduplicated
  exact ⟨(Option.some.inj hordered).symm,
    (not_duplicated _ [] (Bool.not_eq_true _ ▸ hduplicated)).2⟩

/-! ## Contents -/

mutual

/-- What `visit` makes of a document it does not refuse. -/
def content : Json → Json
  | .array elements => .array [.string (ofAscii "array"), .array (elementContents elements)]
  | .object members => .array [.string (ofAscii "object"),
      .array ((sortedPairs (memberContents members)).map pairJson)]
  | .number lexeme => .array [.string (ofAscii "number"), .string lexeme]
  | .string text => .array [.string (ofAscii "value"), .string text]
  | .bool value => .array [.string (ofAscii "value"), .bool value]
  | .null => .array [.string (ofAscii "value"), .null]

def elementContents : List Json → List Json
  | [] => []
  | element :: rest => content element :: elementContents rest

def memberContents : List (JsString × Json) → List (JsString × Json)
  | [] => []
  | (name, value) :: rest => (name, content value) :: memberContents rest

end

theorem memberTrees_eq (members : List (JsString × Json)) :
    memberTrees members = members.map fun member => (member.1, treeOf member.2) := by
  induction members with
  | nil => rfl
  | cons member rest ih => rw [memberTrees, ih, List.map_cons]

theorem memberContents_eq (members : List (JsString × Json)) :
    memberContents members = members.map fun member => (member.1, content member.2) := by
  induction members with
  | nil => rfl
  | cons member rest ih => rw [memberContents, ih, List.map_cons]

theorem keys_memberContents (members : List (JsString × Json)) :
    (memberContents members).map Prod.fst = members.map Prod.fst := by
  rw [memberContents_eq, List.map_map]
  rfl

section Visits

variable {allowed : List JsString}

/-- A repeated name that may repeat has its pointer among those allowed. -/
theorem declared_of_repeatable {path : JsString} {names : List JsString}
    (hrepeats : RepeatsDeclared names (names.filter fun name =>
      allowed.contains (pointer path name))) :
    ∀ name, 2 ≤ names.count name → pointer path name ∈ allowed := by
  intro name hcount
  have hallowed := (List.mem_filter.mp (hrepeats name hcount)).2
  exact List.contains_iff_mem.mp hallowed

mutual

theorem visit_spells (value : Json) {path : JsString} {expression : Expression} {result : Json}
    (hspells : Spells expression value) (hvisit : visit allowed path expression = some result) :
    result = content value ∧ Declared allowed path value := by
  cases hspells with
  | @object properties members hmembers =>
      rw [visit] at hvisit
      cases hpairs : visitProperties allowed path properties with
      | none => rw [hpairs] at hvisit; exact absurd hvisit nofun
      | some pairs =>
          obtain ⟨rfl, hdeclared⟩ := visitProperties_spells members hmembers hpairs
          rw [hpairs] at hvisit
          dsimp only at hvisit
          obtain ⟨sorted, hsorted, rfl⟩ := Option.map_eq_some_iff.mp hvisit
          obtain ⟨rfl, hrepeats⟩ := ordered_eq_some hsorted
          rw [keys_memberContents] at hrepeats
          refine ⟨by rw [content], ?_⟩
          rw [Declared]
          exact ⟨declared_of_repeatable hrepeats, hdeclared⟩
  | @array expressions elements helements =>
      rw [visit] at hvisit
      obtain ⟨contents, hcontents, rfl⟩ := Option.map_eq_some_iff.mp hvisit
      obtain ⟨rfl, hdeclared⟩ := visitElements_spells elements helements hcontents
      refine ⟨by rw [content], ?_⟩
      rw [Declared]
      exact hdeclared
  | @number unit rest hunit =>
      rw [visit, List.head?_cons] at hvisit
      dsimp only at hvisit
      rw [if_pos hunit] at hvisit
      refine ⟨(Option.some.inj hvisit).symm.trans (by rw [content]), ?_⟩
      simp only [Declared]
  | @scalar unit rest _ hunit hparsed hscalar =>
      rw [visit, List.head?_cons] at hvisit
      dsimp only at hvisit
      rw [if_neg (Bool.eq_false_iff.mp hunit), hparsed] at hvisit
      obtain rfl := Option.some.inj hvisit
      rcases hscalar with rfl | ⟨flag, rfl⟩ | ⟨text, rfl⟩
      · exact ⟨by rw [content], by simp only [Declared]⟩
      · exact ⟨by rw [content], by simp only [Declared]⟩
      · exact ⟨by rw [content], by simp only [Declared]⟩

theorem visitElements_spells (elements : List Json) {path : JsString} {index : ℕ}
    {expressions : List Expression} {results : List Json}
    (hspells : SpellsElements expressions elements)
    (hvisit : visitElements allowed path index expressions = some results) :
    results = elementContents elements ∧ ElementsDeclared allowed path index elements := by
  cases hspells with
  | nil =>
      rw [visitElements] at hvisit
      exact ⟨(Option.some.inj hvisit).symm, trivial⟩
  | @cons expression expressions element elements hfirst hrest =>
      rw [visitElements] at hvisit
      cases hresult : visit allowed (path ++ ascii '/' :: decimal index) expression with
      | none => rw [hresult] at hvisit; exact absurd hvisit nofun
      | some result =>
          rw [hresult] at hvisit
          obtain ⟨others, hothers, rfl⟩ := Option.map_eq_some_iff.mp hvisit
          obtain ⟨rfl, hdeclared⟩ := visit_spells element hfirst hresult
          obtain ⟨rfl, hdeclareds⟩ := visitElements_spells elements hrest hothers
          exact ⟨rfl, hdeclared, hdeclareds⟩

theorem visitProperties_spells (members : List (JsString × Json)) {path : JsString}
    {properties : List Property} {results : List (JsString × Json)}
    (hspells : SpellsMembers properties members)
    (hvisit : visitProperties allowed path properties = some results) :
    results = memberContents members ∧ MembersDeclared allowed path members := by
  cases hspells with
  | nil =>
      rw [visitProperties] at hvisit
      exact ⟨(Option.some.inj hvisit).symm, trivial⟩
  | @cons name expression properties value members hfirst hrest =>
      rw [visitProperties, visitProperty] at hvisit
      cases hresult : visit allowed (pointer path name) expression with
      | none => rw [hresult] at hvisit; exact absurd hvisit nofun
      | some result =>
          rw [hresult] at hvisit
          obtain ⟨others, hothers, rfl⟩ := Option.map_eq_some_iff.mp hvisit
          obtain ⟨rfl, hdeclared⟩ := visit_spells value hfirst hresult
          obtain ⟨rfl, hdeclareds⟩ := visitProperties_spells members hrest hothers
          exact ⟨rfl, hdeclared, hdeclareds⟩

end

end Visits

/-! ## Contents and trees -/

theorem map_eq_iff {Value First Second : Type} {first : Value → First} {second : Value → Second}
    {left : List Value} (hagree : ∀ one ∈ left, ∀ two, first one = first two ↔
      second one = second two) (right : List Value) :
    left.map first = right.map first ↔ left.map second = right.map second := by
  induction left generalizing right with
  | nil => cases right <;> simp
  | cons one left ih =>
      rw [List.forall_mem_cons] at hagree
      cases right with
      | nil => simp
      | cons two right =>
          rw [List.map_cons, List.map_cons, List.map_cons, List.map_cons, List.cons.injEq,
            List.cons.injEq, hagree.1 two, ih hagree.2 right]

theorem elementTrees_eq (elements : List Json) : elementTrees elements = elements.map treeOf := by
  induction elements with
  | nil => rfl
  | cons element rest ih => rw [elementTrees, ih, List.map_cons]

theorem elementContents_eq (elements : List Json) :
    elementContents elements = elements.map content := by
  induction elements with
  | nil => rfl
  | cons element rest ih => rw [elementContents, ih, List.map_cons]

theorem pairJson_injective : Function.Injective pairJson := by
  rintro ⟨name, value⟩ ⟨name', value'⟩ hpair
  simpa [pairJson] using hpair

/-- Of which kind a content is. -/
theorem kind_ne : ofAscii "array" ≠ ofAscii "object" ∧ ofAscii "array" ≠ ofAscii "number" ∧
    ofAscii "array" ≠ ofAscii "value" ∧ ofAscii "object" ≠ ofAscii "number" ∧
    ofAscii "object" ≠ ofAscii "value" ∧ ofAscii "number" ≠ ofAscii "value" ∧
    ofAscii "object" ≠ ofAscii "array" ∧ ofAscii "value" ≠ ofAscii "number" := by
  decide

mutual

theorem content_eq_iff (value other : Json) :
    content value = content other ↔ treeOf value = treeOf other := by
  cases value with
  | object members =>
      cases other with
      | object members' =>
          have hvalues (name : JsString) :
              Multimap.values name (memberContents members) =
                  Multimap.values name (memberContents members') ↔
                Multimap.values name (memberTrees members) =
                  Multimap.values name (memberTrees members') := by
            rw [memberContents_eq, memberContents_eq, memberTrees_eq, memberTrees_eq,
              Multimap.values_map, Multimap.values_map, Multimap.values_map, Multimap.values_map]
            apply map_eq_iff
            intro one hone two
            obtain ⟨member, hmember, rfl⟩ := List.mem_map.mp hone
            exact memberContents_iff members member (List.mem_filter.mp hmember).1 two
          simp only [content, treeOf, Json.array.injEq, List.cons.injEq, true_and, and_true,
            Tree.object.injEq, pairJson_injective.list_map.eq_iff, sortedPairs_eq_iff, funext_iff,
            hvalues]
      | _ => simp [content, treeOf, kind_ne]
  | array elements =>
      cases other with
      | array elements' =>
          simp only [content, treeOf, Json.array.injEq, List.cons.injEq, true_and, and_true,
            Tree.array.injEq, elementContents_eq, elementTrees_eq]
          exact map_eq_iff (elementContents_iff elements) elements'
      | _ => simp [content, treeOf, kind_ne]
  | number lexeme => cases other <;> simp [content, treeOf, kind_ne]
  | string text => cases other <;> simp [content, treeOf, kind_ne]
  | bool flag => cases other <;> simp [content, treeOf]
  | null => cases other <;> simp [content, treeOf]

theorem elementContents_iff (elements : List Json) : ∀ element ∈ elements, ∀ other,
    content element = content other ↔ treeOf element = treeOf other := by
  cases elements with
  | nil => exact nofun
  | cons first rest =>
      rw [List.forall_mem_cons]
      exact ⟨content_eq_iff first, elementContents_iff rest⟩

theorem memberContents_iff (members : List (JsString × Json)) : ∀ member ∈ members, ∀ other,
    content member.2 = content other ↔ treeOf member.2 = treeOf other := by
  cases members with
  | nil => exact nofun
  | cons first rest =>
      obtain ⟨name, value⟩ := first
      rw [List.forall_mem_cons]
      exact ⟨content_eq_iff value, memberContents_iff rest⟩

end

/-! ## Keys -/

theorem valid_pair {pair : JsString × Json} (hvalid : Json.Valid pair.2) :
    Json.Valid (pairJson pair) := by
  apply Json.Valid.array
  intro element hmem
  rcases List.mem_cons.mp hmem with rfl | hrest
  · exact .string pair.1
  · rw [List.mem_singleton.mp hrest]
    exact hvalid

/-- A kind with what is of it. -/
theorem valid_tagged (kind : JsString) {value : Json} (hvalid : Json.Valid value) :
    Json.Valid (.array [.string kind, value]) :=
  @valid_pair (kind, value) hvalid

mutual

theorem valid_content (value : Json) : Json.Valid (content value) := by
  cases value with
  | object members =>
      rw [content]
      apply valid_tagged
      apply Json.Valid.array
      intro element hmem
      obtain ⟨pair, hpair, rfl⟩ := List.mem_map.mp hmem
      exact valid_pair (valid_memberContents members pair (List.mem_insertionSort _ |>.mp hpair))
  | array elements =>
      rw [content]
      exact valid_tagged _ (.array (valid_elementContents elements))
  | number lexeme => exact valid_tagged _ (.string lexeme)
  | string text => exact valid_tagged _ (.string text)
  | bool flag => exact valid_tagged _ (.bool flag)
  | null => exact valid_tagged _ .null

theorem valid_elementContents (elements : List Json) :
    ∀ element ∈ elementContents elements, Json.Valid element := by
  cases elements with
  | nil => exact nofun
  | cons first rest =>
      rw [elementContents, List.forall_mem_cons]
      exact ⟨valid_content first, valid_elementContents rest⟩

theorem valid_memberContents (members : List (JsString × Json)) :
    ∀ member ∈ memberContents members, Json.Valid member.2 := by
  cases members with
  | nil => exact nofun
  | cons first rest =>
      obtain ⟨name, value⟩ := first
      rw [memberContents, List.forall_mem_cons]
      exact ⟨valid_content value, valid_memberContents rest⟩

end

/-- Parameters as a key has them. -/
def parameterContent (pairs : Parameters) : Json :=
  .array ((sortedPairs pairs).map fun pair => pairJson (pair.1, .string pair.2))

theorem valid_parameterContent (pairs : Parameters) : Json.Valid (parameterContent pairs) := by
  apply Json.Valid.array
  intro element hmem
  obtain ⟨pair, -, rfl⟩ := List.mem_map.mp hmem
  exact valid_pair (.string pair.2)

theorem parameterContent_eq_iff (left right : Parameters) :
    parameterContent left = parameterContent right ↔
      ∀ name, Multimap.values name left = Multimap.values name right := by
  have hinjective : Function.Injective fun pair : JsString × JsString =>
      pairJson (pair.1, .string pair.2) := by
    intro one two hsame
    have hpair := pairJson_injective hsame
    rw [Prod.mk.injEq, Json.string.injEq] at hpair
    exact Prod.ext hpair.1 hpair.2
  rw [parameterContent, parameterContent, Json.array.injEq, hinjective.list_map.eq_iff,
    sortedPairs_eq_iff]

theorem multimap_eq_some {pairs : Parameters} {allowed : List JsString} {result : Json}
    (hresult : multimap pairs allowed = some result) :
    result = parameterContent pairs ∧ RepeatsDeclared (pairs.map Prod.fst) allowed := by
  obtain ⟨sorted, hsorted, rfl⟩ := Option.map_eq_some_iff.mp hresult
  obtain ⟨rfl, hrepeats⟩ := ordered_eq_some hsorted
  exact ⟨rfl, hrepeats⟩

/-- A document in a key; a request without one has `null`. -/
def documentContent : Option Json → Json
  | none => .null
  | some value => content value

theorem documentContent_eq_iff (left right : Option Json) :
    documentContent left = documentContent right ↔ left.map treeOf = right.map treeOf := by
  have hcontent (value : Json) : content value ≠ .null := by
    cases value <;> rw [content] <;> exact nofun
  cases left with
  | none =>
      cases right with
      | none => exact iff_of_true rfl rfl
      | some value => exact iff_of_false (hcontent value).symm nofun
  | some value =>
      cases right with
      | none => exact iff_of_false (hcontent value) nofun
      | some other =>
          rw [documentContent, documentContent, content_eq_iff, Option.map_some, Option.map_some,
            Option.some.injEq]

theorem valid_documentContent (value : Option Json) : Json.Valid (documentContent value) := by
  cases value with
  | none => exact .null
  | some value => exact valid_content value

namespace WriteRequest

/-- The path of the request's URL. -/
def pathname (grammar : Syntax) (request : WriteRequest) : Option JsString :=
  (Url.newUrl grammar.authority (ofAscii "https://request.example" ++ request.path)).map
    Url.pathname

/-- The form as pairs; a request without one has none. -/
def formPairs (request : WriteRequest) : Parameters := request.form.getD []

/-- The document the body's text spells. -/
def document (request : WriteRequest) : Option Json := request.json.bind Json.parse

/-- Every repeated name is declared to have several values where it stands. -/
structure AllDeclared (request : WriteRequest) : Prop where
  query : RepeatsDeclared (request.query.map Prod.fst) request.multiValue.query
  form : RepeatsDeclared (request.formPairs.map Prod.fst) request.multiValue.form
  json : ∀ value ∈ request.document, Declared request.multiValue.json [] value

end WriteRequest

/-- The key of a request that is not refused. -/
def keyOf (request : WriteRequest) (pathname : JsString) : Json :=
  .array [.string request.method.text, .string pathname, parameterContent request.query,
    parameterContent request.formPairs, documentContent request.document]

theorem writeRequestKey_eq_some {grammar : Syntax}
    (hacorn : ∀ text value expression, Json.parse text = some value →
      grammar.acorn text = some expression → Spells expression value)
    {request : WriteRequest} {key : JsString} (hkey : writeRequestKey grammar request = some key) :
    (∃ pathname, request.pathname grammar = some pathname ∧
      key = (keyOf request pathname).stringify) ∧ request.AllDeclared := by
  rw [writeRequestKey] at hkey
  split_ifs at hkey
  obtain ⟨url, hurl, hkey⟩ := Option.bind_eq_some_iff.mp hkey
  obtain ⟨query, hquery, hkey⟩ := Option.bind_eq_some_iff.mp hkey
  obtain ⟨form, hform, hkey⟩ := Option.bind_eq_some_iff.mp hkey
  have hbody : ∃ json, (request.json.elim (some .null) fun text =>
        jsonContent grammar.acorn text request.multiValue.json) = some json ∧
      (Json.array [.string request.method.text, .string url.pathname, query, form,
        json]).stringify = key := by
    cases htext : request.json with
    | none =>
        rw [htext] at hkey
        exact ⟨.null, rfl, Option.some.inj hkey⟩
    | some text =>
        rw [htext] at hkey
        obtain ⟨json, hjson, hkey⟩ := Option.bind_eq_some_iff.mp hkey
        exact ⟨json, hjson, Option.some.inj hkey⟩
  obtain ⟨json, hjson, rfl⟩ := hbody
  obtain ⟨rfl, hqueryDeclared⟩ := multimap_eq_some hquery
  obtain ⟨rfl, hformDeclared⟩ := multimap_eq_some hform
  have hdocument : json = documentContent request.document ∧
      ∀ value ∈ request.document, Declared request.multiValue.json [] value := by
    rw [WriteRequest.document]
    cases htext : request.json with
    | none =>
        rw [htext] at hjson
        exact ⟨(Option.some.inj hjson).symm, by simp⟩
    | some text =>
        rw [htext] at hjson
        rw [Option.elim_some, jsonContent] at hjson
        cases hvalue : Json.parse text with
        | none => rw [hvalue] at hjson; exact absurd hjson (by simp)
        | some value =>
            cases hexpression : grammar.acorn text with
            | none => rw [hvalue, hexpression] at hjson; exact absurd hjson (by simp)
            | some expression =>
                rw [hvalue, hexpression] at hjson
                obtain ⟨rfl, hdeclared⟩ :=
                  visit_spells value (hacorn text value expression hvalue hexpression) hjson
                rw [Option.bind_some, hvalue]
                refine ⟨rfl, fun other hother => ?_⟩
                obtain rfl := Option.mem_some_iff.mp hother
                exact hdeclared
  obtain ⟨rfl, hdeclared⟩ := hdocument
  refine ⟨⟨url.pathname, ?_, rfl⟩, hqueryDeclared, hformDeclared, hdeclared⟩
  rw [WriteRequest.pathname, hurl]
  rfl

theorem valid_keyOf (request : WriteRequest) (pathname : JsString) :
    Json.Valid (keyOf request pathname) := by
  apply Json.Valid.array
  simp only [List.forall_mem_cons]
  exact ⟨.string _, .string _, valid_parameterContent _, valid_parameterContent _,
    valid_documentContent _, nofun⟩

theorem HttpMethod.text_injective : Function.Injective HttpMethod.text := by
  intro one two
  cases one <;> cases two <;> decide

theorem writeRequestKey_eq_iff (grammar : Syntax)
    (hacorn : ∀ text value expression, Json.parse text = some value →
      grammar.acorn text = some expression → Spells expression value)
    (first second : WriteRequest) (firstKey secondKey : JsString)
    (hfirst : writeRequestKey grammar first = some firstKey)
    (hsecond : writeRequestKey grammar second = some secondKey) :
    (firstKey = secondKey ↔
      first.method = second.method ∧ first.pathname grammar = second.pathname grammar ∧
      (∀ name, Multimap.values name first.query = Multimap.values name second.query) ∧
      (∀ name, Multimap.values name first.formPairs = Multimap.values name second.formPairs) ∧
      first.document.map treeOf = second.document.map treeOf) ∧
    first.AllDeclared := by
  obtain ⟨⟨pathname, hpathname, rfl⟩, hdeclared⟩ := writeRequestKey_eq_some hacorn hfirst
  obtain ⟨⟨pathname', hpathname', rfl⟩, -⟩ := writeRequestKey_eq_some hacorn hsecond
  refine ⟨?_, hdeclared⟩
  have hinjective : (keyOf first pathname).stringify = (keyOf second pathname').stringify ↔
      keyOf first pathname = keyOf second pathname' :=
    ⟨Json.stringify_injective (valid_keyOf _ _) (valid_keyOf _ _), congrArg Json.stringify⟩
  rw [hinjective, hpathname, hpathname', Option.some.injEq, ← parameterContent_eq_iff,
    ← parameterContent_eq_iff, ← documentContent_eq_iff, ← HttpMethod.text_injective.eq_iff]
  simp only [keyOf, Json.array.injEq, List.cons.injEq, Json.string.injEq, and_true]

/-! ## Two orders of one document -/

def exampleDocument : Json :=
  .object [(ofAscii "b", .number (ofAscii "-0")), (ofAscii "a", .array [.bool true])]

def exampleReordered : Json :=
  .object [(ofAscii "a", .array [.bool true]), (ofAscii "b", .number (ofAscii "-0"))]

def exampleSyntax : Syntax where
  authority _ _ := some ⟨ofAscii "https:", ofAscii "https://request.example",
    ofAscii "request.example", [], []⟩
  acorn text :=
    if text = exampleDocument.stringify then
      some (.object [.literal (ofAscii "b") (.other (ofAscii "-0")),
        .literal (ofAscii "a") (.array [.other (ofAscii "true")])])
    else if text = exampleReordered.stringify then
      some (.object [.literal (ofAscii "a") (.array [.other (ofAscii "true")]),
        .literal (ofAscii "b") (.other (ofAscii "-0"))])
    else none

def exampleWrite (document : Json) : WriteRequest where
  method := .post
  path := ofAscii "/items"
  template := ofAscii "/items"
  json := some document.stringify

theorem valid_example (members : List (JsString × Json))
    (hmembers : members.Perm
      [(ofAscii "a", .array [.bool true]), (ofAscii "b", .number (ofAscii "-0"))]) :
    Json.Valid (.object members) := by
  apply Json.Valid.object
  · rw [(hmembers.map Prod.fst).nodup_iff]
    decide
  · intro member hmem
    have hmem' := hmembers.mem_iff.mp hmem
    simp only [List.mem_cons, List.not_mem_nil, or_false] at hmem'
    rcases hmem' with rfl | rfl
    · apply Json.Valid.array
      rw [List.forall_mem_singleton]
      exact .bool true
    · exact .number (by decide)

theorem writeRequestKey_eq_iff_example :
    (exampleWrite exampleDocument).document.map treeOf =
      (exampleWrite exampleReordered).document.map treeOf := by
  have hnumber : Spells (.other (ofAscii "-0")) (.number (ofAscii "-0")) := .number rfl
  have hflags : Spells (.array [.other (ofAscii "true")]) (.array [.bool true]) := by
    have hflag : Spells (.other (ofAscii "true")) (.bool true) :=
      .scalar rfl (Json.parse_stringify (.bool true)) (Or.inr (Or.inl ⟨true, rfl⟩))
    exact .array (.cons hflag .nil)
  have hacorn : ∀ text value expression, Json.parse text = some value →
      exampleSyntax.acorn text = some expression → Spells expression value := by
    intro text value expression hparse hread
    rw [exampleSyntax] at hread
    dsimp only at hread
    split_ifs at hread with hfirst hsecond
    · rw [hfirst, exampleDocument, Json.parse_stringify (valid_example _ (.swap _ _ _))] at hparse
      rw [← Option.some.inj hread, ← Option.some.inj hparse]
      exact .object (.cons hnumber (.cons hflags .nil))
    · rw [hsecond, exampleReordered, Json.parse_stringify (valid_example _ (.refl _))] at hparse
      rw [← Option.some.inj hread, ← Option.some.inj hparse]
      exact .object (.cons hflags (.cons hnumber .nil))
  have hkey (document : Json) (hdocument : document = exampleDocument ∨
      document = exampleReordered) :
      writeRequestKey exampleSyntax (exampleWrite document) = some (
        ofAscii "[\"POST\",\"/items\",[],[],[\"object\",[" ++
        ofAscii "[\"a\",[\"array\",[[\"value\",true]]]]," ++
        ofAscii "[\"b\",[\"number\",\"-0\"]]]]]") := by
    rcases hdocument with rfl | rfl
    · decide +kernel
    · decide +kernel
  exact ((writeRequestKey_eq_iff exampleSyntax hacorn _ _ _ _ (hkey _ (Or.inl rfl))
    (hkey _ (Or.inr rfl))).1.mp rfl).2.2.2.2

end Connecta.Http
