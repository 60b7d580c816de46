import Connecta.Catalog.DiscoverySummaries
import Connecta.Runtime.JsonText

/-!
# The search index

A catalog's tools become documents of four zones with postings under their tokens.  A finished
index is retained under the texts it was built from; a view of it names the tools that stand at
its positions, and a request carries a view on to the tools it lets be seen.
-/

namespace Connecta.Catalog

open Connecta.Foundation
open Connecta.Runtime (JsString Json ascii)
open Connecta.Runtime.JsString (ofAscii)

/-! ## Tools -/

/-- What search reads of a tool. -/
structure ToolDef where
  name : JsString
  description : Option JsString
  title : Option Json
  /-- `annotations?.title` -/
  annotationsTitle : Option Json

/-- A tool's display title; MCP carries it on the tool or on its annotations. -/
def toolTitle (tool : ToolDef) : JsString :=
  let title := match tool.title with
    | none => tool.annotationsTitle
    | some .null => tool.annotationsTitle
    | some title => some title
  match title with
  | some (.string title) => title
  | _ => []

/-- `tool.description ?? ""` -/
def toolDescription (tool : ToolDef) : JsString := tool.description.getD []

/-! ## Documents -/

inductive Zone where
  | nameTokens
  | titleTokens
  | summaryTokens
  | tailTokens
  deriving DecidableEq

def zones : List Zone := [.nameTokens, .titleTokens, .summaryTokens, .tailTokens]

structure SearchDocument where
  name : JsString
  nameTokens : List JsString
  titleTokens : List JsString
  /-- Tokens of what search shows of the description. -/
  summaryTokens : List JsString
  /-- The description's remaining tokens: searchable, but weak evidence. -/
  tailTokens : List JsString

def SearchDocument.tokens (document : SearchDocument) : Zone → List JsString
  | .nameTokens => document.nameTokens
  | .titleTokens => document.titleTokens
  | .summaryTokens => document.summaryTokens
  | .tailTokens => document.tailTokens

structure SearchIndex where
  documents : List SearchDocument
  postings : Zone → OrderedMap JsString (List ℕ)

section

variable (toLowerCase : JsString → JsString)

def searchDocument (tool : ToolDef) : SearchDocument :=
  let description := toolDescription tool
  let nameTokens := lexicalTokens toLowerCase tool.name
  let summary := distinct (lexicalTokens toLowerCase (discoverySummary description).1)
  { name := joined nameTokens
    nameTokens := nameTokens
    titleTokens := distinct (lexicalTokens toLowerCase (toolTitle tool))
    summaryTokens := summary
    tailTokens := (distinct (lexicalTokens toLowerCase description)).filter (· ∉ summary) }

def buildIndex (tools : List ToolDef) : SearchIndex :=
  let documents := tools.map (searchDocument toLowerCase)
  { documents := documents
    postings := fun zone => postings (documents.map (·.tokens zone)) }

end

/-! ## The bytes an index is charged for -/

def searchIndexBytes : ℕ := 8 * 1024 * 1024

def documentBytes (document : SearchDocument) : ℕ :=
  128 + document.name.length * 2 + (zones.map fun zone =>
    ((document.tokens zone).map fun token => 32 + token.length * 2).sum).sum

def postingsBytes (map : OrderedMap JsString (List ℕ)) : ℕ :=
  (map.entries.map fun (token, positions) => 96 + token.length * 2 + positions.length * 8).sum

def indexBytes (key : JsString) (index : SearchIndex) : ℕ :=
  key.length * 2 + 128 + (index.documents.map documentBytes).sum +
    (zones.map fun zone => postingsBytes (index.postings zone)).sum

/-- What `buildIndex` reads of a tool, in the order of a key. -/
def toolKey (tool : ToolDef) : Json :=
  .array [.string tool.name, .string (toolDescription tool), .string (toolTitle tool)]

/-- `JSON.stringify([partition, tools.map(…)])` -/
def catalogKey (partition : JsString) (tools : List ToolDef) : JsString :=
  Json.stringify (.array [.string partition, .array (tools.map toolKey)])

/-! ## Views and what is retained -/

/-- The tools that stand at the positions of an index. -/
structure SearchView (Tool : Type*) where
  index : SearchIndex
  tools : List (ℕ × Tool)

/-- What a view shows under a token of a zone. -/
def SearchView.under {Tool : Type*} (view : SearchView Tool) (zone : Zone) (token : JsString) :
    List Tool :=
  shownUnder (view.index.postings zone) view.tools token

/-- The module's state: the view bound to an array of tools, and the indexes that outlive a
request. -/
structure SearchState (Tools Tool : Type*) where
  searchIndexes : Tools → Option (SearchView Tool)
  retainedIndexes : OrderedMap JsString (SearchIndex × ℕ)
  retainedBytes : ℕ

def SearchState.initial {Tools Tool : Type*} : SearchState Tools Tool :=
  ⟨fun _ => none, .empty, 0⟩

/-- The oldest indexes go until there is room for so many bytes more. -/
def evict (bytes : ℕ) : ℕ → List (JsString × SearchIndex × ℕ) →
    List (JsString × SearchIndex × ℕ) × ℕ
  | total, [] => ([], total)
  | total, oldest :: rest =>
      if 4 ≤ (oldest :: rest).length ∨ searchIndexBytes < total + bytes then
        evict bytes (total - oldest.2.2) rest
      else (oldest :: rest, total)

theorem evict_suffix (bytes : ℕ) {total : ℕ} {entries : List (JsString × SearchIndex × ℕ)} :
    (evict bytes total entries).1 <:+ entries := by
  induction entries generalizing total with
  | nil => exact List.suffix_rfl
  | cons oldest rest ih =>
      rw [evict]
      split_ifs
      · exact ih.trans (List.suffix_cons oldest rest)
      · exact List.suffix_rfl

section

variable {Tools Tool : Type*} [DecidableEq Tools] [DecidableEq Tool]
variable (toLowerCase : JsString → JsString)
/- The tool objects of an array, and what one of them holds. -/
variable (contents : Tools → List Tool) (definition : Tool → ToolDef)

def SearchState.bind (state : SearchState Tools Tool) (tools : Tools) (view : SearchView Tool) :
    SearchState Tools Tool :=
  { state with searchIndexes := Function.update state.searchIndexes tools (some view) }

def bindIndex (state : SearchState Tools Tool) (tools : Tools) (index : SearchIndex) :
    SearchView Tool × SearchState Tools Tool :=
  let view : SearchView Tool := ⟨index, numbered (contents tools)⟩
  (view, state.bind tools view)

/-- An index is retained, unless it alone is too large. -/
def retain (state : SearchState Tools Tool) (key : JsString) (index : SearchIndex) :
    SearchState Tools Tool :=
  let bytes := indexBytes key index
  if searchIndexBytes < bytes then state
  else
    let kept := evict bytes state.retainedBytes state.retainedIndexes.entries
    { state with
      retainedIndexes := OrderedMap.set ⟨kept.1, state.retainedIndexes.nodup.sublist
        ((evict_suffix bytes).sublist.map Prod.fst)⟩ key (index, bytes)
      retainedBytes := kept.2 + bytes }

/-- Only called after complete catalog acceptance, redaction and classification. -/
def prepareLexicalCatalog (state : SearchState Tools Tool) (tools : Tools)
    (catalogPartition : JsString) : SearchState Tools Tool :=
  if (state.searchIndexes tools).isSome then state
  else
    let definitions := (contents tools).map definition
    let key := catalogKey catalogPartition definitions
    match state.retainedIndexes.get? key with
    | some retained => (bindIndex contents state tools retained.1).2
    | none =>
        let index := buildIndex toLowerCase definitions
        retain (bindIndex contents state tools index).2 key index

/-- Project immutable positions onto this request's currently visible objects. -/
def carryLexicalCatalog (state : SearchState Tools Tool) (source visible : Tools) :
    SearchState Tools Tool :=
  match state.searchIndexes source with
  | none => state
  | some view =>
      if source = visible then state
      else state.bind visible
        ⟨view.index, view.tools.filter fun entry => entry.2 ∈ contents visible⟩

def indexFor (state : SearchState Tools Tool) (tools : Tools) :
    SearchView Tool × SearchState Tools Tool :=
  match state.searchIndexes tools with
  | some view => (view, state)
  | none =>
      bindIndex contents state tools (buildIndex toLowerCase ((contents tools).map definition))

end

/-! ## Room for an index -/

def totalBytes (entries : List (JsString × SearchIndex × ℕ)) : ℕ :=
  (entries.map fun entry => entry.2.2).sum

theorem evict_total (bytes : ℕ) (entries : List (JsString × SearchIndex × ℕ)) :
    (evict bytes (totalBytes entries) entries).2 =
      totalBytes (evict bytes (totalBytes entries) entries).1 := by
  induction entries with
  | nil => rfl
  | cons oldest rest ih =>
      have hrest : totalBytes (oldest :: rest) - oldest.2.2 = totalBytes rest :=
        Nat.add_sub_cancel_left _ _
      rw [evict, hrest]
      split_ifs
      · exact ih
      · rfl

/-- There is room once the oldest indexes are gone. -/
theorem evict_room {bytes : ℕ} (hbytes : bytes ≤ searchIndexBytes)
    (entries : List (JsString × SearchIndex × ℕ)) :
    (evict bytes (totalBytes entries) entries).1.length < 4 ∧
      (evict bytes (totalBytes entries) entries).2 + bytes ≤ searchIndexBytes := by
  induction entries with
  | nil =>
      refine ⟨Nat.zero_lt_succ 3, ?_⟩
      rw [totalBytes, List.map_nil, List.sum_nil, evict, Nat.zero_add]
      exact hbytes
  | cons oldest rest ih =>
      have hrest : totalBytes (oldest :: rest) - oldest.2.2 = totalBytes rest :=
        Nat.add_sub_cancel_left _ _
      rw [evict, hrest]
      split_ifs with hfull
      · exact ih
      · rw [not_or, not_le, not_lt] at hfull
        exact hfull

/-! ## What a key stands for -/

theorem valid_toolKey (tool : ToolDef) : Json.Valid (toolKey tool) := by
  apply Json.Valid.array
  intro element helement
  simp only [List.mem_cons, List.not_mem_nil, or_false] at helement
  rcases helement with rfl | rfl | rfl
  · exact .string _
  · exact .string _
  · exact .string _

theorem valid_catalogKey (catalogPartition : JsString) (tools : List ToolDef) :
    Json.Valid (.array [.string catalogPartition, .array (tools.map toolKey)]) := by
  apply Json.Valid.array
  intro element helement
  simp only [List.mem_cons, List.not_mem_nil, or_false] at helement
  rcases helement with rfl | rfl
  · exact .string _
  · apply Json.Valid.array
    intro key hkey
    obtain ⟨tool, _, rfl⟩ := List.mem_map.mp hkey
    exact valid_toolKey tool

/-- A key is read by one partition and one list of texts. -/
theorem catalogKey_injective {left right : JsString} {lefts rights : List ToolDef}
    (hkey : catalogKey left lefts = catalogKey right rights) :
    left = right ∧ lefts.map toolKey = rights.map toolKey := by
  have hjson := Json.stringify_injective (valid_catalogKey left lefts)
    (valid_catalogKey right rights) hkey
  simp only [Json.array.injEq, List.cons.injEq, Json.string.injEq, and_true] at hjson
  exact hjson

section

variable (toLowerCase : JsString → JsString)

/-- A document is made of what the key holds of its tool. -/
theorem searchDocument_eq {left right : ToolDef} (hkey : toolKey left = toolKey right) :
    searchDocument toLowerCase left = searchDocument toLowerCase right := by
  simp only [toolKey, Json.array.injEq, List.cons.injEq, Json.string.injEq, and_true] at hkey
  rw [searchDocument, searchDocument, hkey.1, hkey.2.1, hkey.2.2]

theorem buildIndex_eq {lefts rights : List ToolDef}
    (hkeys : lefts.map toolKey = rights.map toolKey) :
    buildIndex toLowerCase lefts = buildIndex toLowerCase rights := by
  have hdocuments : lefts.map (searchDocument toLowerCase) =
      rights.map (searchDocument toLowerCase) := by
    induction lefts generalizing rights with
    | nil =>
        rw [List.map_nil, eq_comm, List.map_eq_nil_iff] at hkeys
        rw [hkeys]
    | cons left lefts ih =>
        obtain ⟨right, rights', rfl, hhead, htail⟩ := List.map_eq_cons_iff.mp hkeys.symm
        rw [List.map_cons, List.map_cons, searchDocument_eq toLowerCase hhead.symm,
          ih htail.symm]
  rw [buildIndex, buildIndex, hdocuments]

/-- Every token of a description is in the zone of the summary or in that of the rest. -/
theorem searchable_description {tool : ToolDef} {token : JsString}
    (htoken : token ∈ lexicalTokens toLowerCase (toolDescription tool)) :
    token ∈ (searchDocument toLowerCase tool).tokens .summaryTokens ∨
      token ∈ (searchDocument toLowerCase tool).tokens .tailTokens := by
  by_cases hsummary : token ∈ (searchDocument toLowerCase tool).tokens .summaryTokens
  · exact .inl hsummary
  · exact .inr (List.mem_filter.mpr ⟨mem_distinct.mpr htoken, decide_eq_true hsummary⟩)

theorem searchable_title {tool : ToolDef} {token : JsString}
    (htoken : token ∈ lexicalTokens toLowerCase (toolTitle tool)) :
    token ∈ (searchDocument toLowerCase tool).tokens .titleTokens :=
  mem_distinct.mpr htoken

end

/-! ## Views show their tools -/

section

variable {Tool : Type*} (toLowerCase : JsString → JsString) (definition : Tool → ToolDef)

/-- The view's table shows some tools in their order, from among tools its index was built of. -/
def SearchView.ShowsTools (view : SearchView Tool) (tools : List Tool) : Prop :=
  ∃ accepted, view.index = buildIndex toLowerCase (accepted.map definition) ∧
    Shows accepted view.tools ∧ view.tools.map Prod.snd = tools

variable {toLowerCase definition}

theorem SearchView.ShowsTools.under_eq {view : SearchView Tool} {tools : List Tool}
    (hshows : view.ShowsTools toLowerCase definition tools) (zone : Zone) (token : JsString) :
    view.under zone token =
      having (fun tool => (searchDocument toLowerCase (definition tool)).tokens zone) token
        tools := by
  obtain ⟨accepted, hindex, htable, rfl⟩ := hshows
  rw [SearchView.under, hindex, buildIndex]
  dsimp only
  rw [List.map_map, List.map_map]
  exact htable.shownUnder_eq
    (fun tool => (searchDocument toLowerCase (definition tool)).tokens zone) token

theorem SearchView.ShowsTools.documents_eq {view : SearchView Tool} {tools : List Tool}
    (hshows : view.ShowsTools toLowerCase definition tools) :
    shownDocuments view.index.documents view.tools =
      tools.map fun tool => (searchDocument toLowerCase (definition tool), tool) := by
  obtain ⟨accepted, hindex, htable, rfl⟩ := hshows
  rw [hindex, buildIndex]
  dsimp only
  rw [List.map_map]
  exact htable.shownDocuments_eq fun tool => searchDocument toLowerCase (definition tool)

theorem showsTools_numbered {index : SearchIndex} {tools : List Tool}
    (hindex : index = buildIndex toLowerCase (tools.map definition)) :
    SearchView.ShowsTools toLowerCase definition ⟨index, numbered tools⟩ tools :=
  ⟨tools, hindex, shows_numbered tools, numbered_items tools⟩

/-- A subsequence of distinct tools is shown by the positions of its tools. -/
theorem SearchView.ShowsTools.carry [DecidableEq Tool] {view : SearchView Tool}
    {source visible : List Tool}
    (hshows : view.ShowsTools toLowerCase definition source) (hnodup : source.Nodup)
    (hvisible : visible.Sublist source) :
    SearchView.ShowsTools toLowerCase definition
      ⟨view.index, view.tools.filter fun entry => entry.2 ∈ visible⟩ visible := by
  obtain ⟨accepted, hindex, htable, rfl⟩ := hshows
  refine ⟨accepted, hindex, htable.filter _, ?_⟩
  have hmap : (view.tools.filter fun entry => entry.2 ∈ visible).map Prod.snd =
      (view.tools.map Prod.snd).filter (· ∈ visible) := by
    rw [List.filter_map]
    rfl
  rw [hmap]
  exact filter_mem_of_sublist hnodup hvisible

end

end Connecta.Catalog
