import Connecta.Catalog.SearchScans

/-!
# Indexed search is a scan

Whatever was prepared, carried, asked or retained before, a view shows just the tools of its
array.  So statistics and ranks are those of an index built from the array alone, which are
those of going through its tools.
-/

namespace Connecta.Catalog

open Connecta.Foundation
open Connecta.Runtime (JsString)
open Connecta.Runtime.JsString (ofAscii)

section

variable {Tools Tool Number : Type*}
variable (toLowerCase : JsString → JsString)
variable (contents : Tools → List Tool) (definition : Tool → ToolDef)

/-! ## What the caches hold -/

/-- Every view shows its array, and every retained index was built from the texts of its key. -/
structure Sound (state : SearchState Tools Tool) : Prop where
  shows : ∀ tools view, state.searchIndexes tools = some view →
    view.ShowsTools toLowerCase definition (contents tools)
  built : ∀ key index bytes, (key, index, bytes) ∈ state.retainedIndexes.entries →
    bytes = indexBytes key index ∧ ∃ catalogPartition tools,
      key = catalogKey catalogPartition tools ∧ index = buildIndex toLowerCase tools
  few : state.retainedIndexes.size ≤ 4
  total : state.retainedBytes = totalBytes state.retainedIndexes.entries
  bounded : state.retainedBytes ≤ searchIndexBytes

variable {toLowerCase contents definition}

theorem sound_initial : Sound toLowerCase contents definition (.initial : SearchState Tools Tool)
    where
  shows _ _ hview := absurd hview nofun
  built _ _ _ hentry := absurd hentry List.not_mem_nil
  few := Nat.zero_le 4
  total := rfl
  bounded := Nat.zero_le _

section

variable {state : SearchState Tools Tool} (hsound : Sound toLowerCase contents definition state)
include hsound

theorem Sound.retainIndex {catalogPartition : JsString} {tools : List ToolDef}
    (hfresh : state.retainedIndexes.get? (catalogKey catalogPartition tools) = none) :
    Sound toLowerCase contents definition (retain state
      (catalogKey catalogPartition tools) (buildIndex toLowerCase tools)) := by
  set key := catalogKey catalogPartition tools with hkey
  set index := buildIndex toLowerCase tools with hindex
  rw [retain]
  split_ifs with hlarge
  · exact hsound
  have hbytes : indexBytes key index ≤ searchIndexBytes := not_lt.mp hlarge
  have htotal := evict_total (indexBytes key index) state.retainedIndexes.entries
  have hroom := evict_room hbytes state.retainedIndexes.entries
  have hsuffix := @evict_suffix (indexBytes key index) state.retainedBytes
    state.retainedIndexes.entries
  rw [← hsound.total] at htotal hroom
  set kept := evict (indexBytes key index) state.retainedBytes state.retainedIndexes.entries
  have hnotin : key ∉ kept.1.map Prod.fst := fun hmem =>
    OrderedMap.get?_eq_none_iff.mp hfresh ((hsuffix.sublist.map Prod.fst).subset hmem)
  have hentries (hnodup : (kept.1.map Prod.fst).Nodup) :
      (OrderedMap.set ⟨kept.1, hnodup⟩ key (index, indexBytes key index)).entries =
        kept.1 ++ [(key, index, indexBytes key index)] := by
    have hnotkey : key ∉ (OrderedMap.mk kept.1 hnodup).keys := hnotin
    rw [OrderedMap.set, dif_neg hnotkey]
  constructor
  · exact hsound.shows
  · intro other found bytes hmem
    rw [hentries, List.mem_append, List.mem_singleton] at hmem
    rcases hmem with hmem | hnew
    · exact hsound.built other found bytes (hsuffix.subset hmem)
    · simp only [Prod.mk.injEq] at hnew
      obtain ⟨rfl, rfl, rfl⟩ := hnew
      exact ⟨rfl, catalogPartition, tools, hkey, hindex⟩
  · rw [OrderedMap.size, hentries, List.length_append]
    exact hroom.1
  · rw [hentries, totalBytes, List.map_append, List.sum_append]
    exact congrArg₂ (· + ·) htotal (Nat.add_zero _).symm
  · exact hroom.2

variable [DecidableEq Tools]

theorem Sound.bind {tools : Tools} {view : SearchView Tool}
    (hview : view.ShowsTools toLowerCase definition (contents tools)) :
    Sound toLowerCase contents definition (state.bind tools view) where
  shows other found hfound := by
    rw [SearchState.bind] at hfound
    by_cases hother : other = tools
    · subst hother
      dsimp only at hfound
      rw [Function.update_self] at hfound
      exact Option.some.inj hfound ▸ hview
    · dsimp only at hfound
      rw [Function.update_of_ne hother] at hfound
      exact hsound.shows other found hfound
  built := hsound.built
  few := hsound.few
  total := hsound.total
  bounded := hsound.bounded

theorem Sound.view (tools : Tools) :
    (indexFor toLowerCase contents definition state tools).1.ShowsTools toLowerCase definition
      (contents tools) ∧
    Sound toLowerCase contents definition
      (indexFor toLowerCase contents definition state tools).2 := by
  rw [indexFor]
  cases hview : state.searchIndexes tools with
  | some view => exact ⟨hsound.shows tools view hview, hsound⟩
  | none =>
      have hshows := @showsTools_numbered Tool toLowerCase definition _ (contents tools) rfl
      exact ⟨hshows, hsound.bind hshows⟩

theorem Sound.prepare (tools : Tools) (catalogPartition : JsString) :
    Sound toLowerCase contents definition
      (prepareLexicalCatalog toLowerCase contents definition state tools catalogPartition) := by
  rw [prepareLexicalCatalog]
  split_ifs
  · exact hsound
  dsimp only
  cases hretained : state.retainedIndexes.get?
      (catalogKey catalogPartition ((contents tools).map definition)) with
  | some retained =>
      apply hsound.bind
      apply showsTools_numbered
      obtain ⟨_, other, texts, hkey, hindex⟩ :=
        hsound.built _ retained.1 retained.2 (OrderedMap.get?_eq_some_iff.mp hretained)
      rw [hindex]
      exact buildIndex_eq toLowerCase (catalogKey_injective hkey).2.symm
  | none => exact (hsound.bind (showsTools_numbered rfl)).retainIndex hretained

theorem Sound.carry [DecidableEq Tool] {source visible : Tools} (hnodup : (contents source).Nodup)
    (hvisible : (contents visible).Sublist (contents source)) :
    Sound toLowerCase contents definition
      (carryLexicalCatalog contents state source visible) := by
  rw [carryLexicalCatalog]
  cases hview : state.searchIndexes source with
  | none => exact hsound
  | some view =>
      dsimp only
      split_ifs
      · exact hsound
      · exact hsound.bind ((hsound.shows source view hview).carry hnodup hvisible)

end

variable [DecidableEq Tools] [DecidableEq Tool]

/-! ## Search is a scan -/

section

variable {state : SearchState Tools Tool} (hsound : Sound toLowerCase contents definition state)
include hsound

theorem Sound.statistics
    (synonymsFor : Option (Tools → Option (JsString → List JsString))) (toolSets : List Tools)
    (query : JsString) :
    (lexicalCorpusStatistics toLowerCase contents definition synonymsFor state toolSets
      query).1 = scanStatistics toLowerCase contents definition synonymsFor toolSets query ∧
    Sound toLowerCase contents definition (lexicalCorpusStatistics toLowerCase contents
      definition synonymsFor state toolSets query).2 := by
  have htools (term : JsString) (progress : TermMatches Tool × SearchState Tools Tool)
      (tools : Tools) (hgood : Sound toLowerCase contents definition progress.2) :
      (collectTools toLowerCase contents definition synonymsFor term progress tools).1 =
          scanTools toLowerCase contents definition synonymsFor term progress.1 tools ∧
        Sound toLowerCase contents definition
          (collectTools toLowerCase contents definition synonymsFor term progress tools).2 := by
    obtain ⟨hshows, hnext⟩ := hgood.view tools
    have hunder : (indexFor toLowerCase contents definition progress.2 tools).1.under =
        scanUnder toLowerCase contents definition tools := by
      funext zone token
      exact hshows.under_eq zone token
    rw [collectTools, scanTools, ← hunder]
    exact ⟨rfl, hnext⟩
  have hterm (progress : LexicalCorpusStatistics Tool × SearchState Tools Tool) (term : JsString)
      (hgood : Sound toLowerCase contents definition progress.2) :
      (collectTerm toLowerCase contents definition synonymsFor toolSets progress term).1 =
          progress.1.setTerm term
            (scanTerm toLowerCase contents definition synonymsFor toolSets term) ∧
        Sound toLowerCase contents definition
          (collectTerm toLowerCase contents definition synonymsFor toolSets progress term).2 := by
    obtain ⟨hfound, hnext⟩ := foldl_scan
      (scanTools toLowerCase contents definition synonymsFor term) (htools term) toolSets
      (show Sound toLowerCase contents definition (⟨[], [], []⟩, progress.2).2 from hgood)
    rw [collectTerm, scanTerm, ← hfound]
    exact ⟨rfl, hnext⟩
  rw [lexicalCorpusStatistics, scanStatistics]
  split_ifs
  · exact ⟨rfl, hsound⟩
  · obtain ⟨hstatistics, hnext⟩ := foldl_scan
      (fun (statistics : LexicalCorpusStatistics Tool) term => statistics.setTerm term
        (scanTerm toLowerCase contents definition synonymsFor toolSets term)) hterm
      (lexicalQueryTerms toLowerCase query) (show Sound toLowerCase contents definition
        (noMatches contents toolSets, state).2 from hsound)
    dsimp only at hstatistics ⊢
    rw [← hstatistics]
    exact ⟨rfl, hnext⟩

theorem Sound.ranks (arithmetic : Arithmetic Number) (tools : Tools) (query : JsString)
    (mode : LexicalMatchMode) (statistics : Option (LexicalCorpusStatistics Tool))
    (exactNameQuery : Option JsString) :
    (rankTools toLowerCase contents definition arithmetic state tools query mode statistics
        exactNameQuery).1 =
      rankDocuments toLowerCase arithmetic (scanDocuments toLowerCase contents definition tools)
        query mode
        (statistics.getD (scanStatistics toLowerCase contents definition none [tools] query))
        (exactNameQuery.getD query) ∧
    Sound toLowerCase contents definition (rankTools toLowerCase contents definition
      arithmetic state tools query mode statistics exactNameQuery).2 := by
  rw [scanDocuments]
  cases statistics with
  | some statistics =>
      rw [rankTools]
      obtain ⟨hshows, hnext⟩ := hsound.view tools
      rw [← hshows.documents_eq]
      exact ⟨rfl, hnext⟩
  | none =>
      rw [rankTools]
      obtain ⟨hstatistics, hcollected⟩ := hsound.statistics none [tools] query
      obtain ⟨hshows, hnext⟩ := hcollected.view tools
      rw [← hshows.documents_eq, Option.getD_none, ← hstatistics]
      exact ⟨rfl, hnext⟩

end

/-! ## Calls -/

inductive Call (Tools Tool : Type*) where
  | prepare (tools : Tools) (catalogPartition : JsString)
  | carry (source visible : Tools)
  | statistics (synonymsFor : Option (Tools → Option (JsString → List JsString)))
      (toolSets : List Tools) (query : JsString)
  | rank (tools : Tools) (query : JsString) (mode : LexicalMatchMode)
      (statistics : Option (LexicalCorpusStatistics Tool)) (exactNameQuery : Option JsString)

/-- What is carried is a subsequence of the distinct tools it is carried from. -/
def Call.Proper (contents : Tools → List Tool) : Call Tools Tool → Prop
  | .carry source visible =>
      (contents source).Nodup ∧ (contents visible).Sublist (contents source)
  | _ => True

section

variable (toLowerCase contents definition) (arithmetic : Arithmetic Number)

/-- The state a call leaves behind. -/
def runCall (state : SearchState Tools Tool) : Call Tools Tool → SearchState Tools Tool
  | .prepare tools catalogPartition =>
      prepareLexicalCatalog toLowerCase contents definition state tools catalogPartition
  | .carry source visible => carryLexicalCatalog contents state source visible
  | .statistics synonymsFor toolSets query =>
      (lexicalCorpusStatistics toLowerCase contents definition synonymsFor state toolSets
        query).2
  | .rank tools query mode statistics exactNameQuery =>
      (rankTools toLowerCase contents definition arithmetic state tools query mode statistics
        exactNameQuery).2

def runCalls (calls : List (Call Tools Tool)) : SearchState Tools Tool :=
  calls.foldl (runCall toLowerCase contents definition arithmetic) .initial

end

variable {arithmetic : Arithmetic Number}

theorem Sound.run {state : SearchState Tools Tool}
    (hsound : Sound toLowerCase contents definition state) {call : Call Tools Tool}
    (hproper : call.Proper contents) :
    Sound toLowerCase contents definition
      (runCall toLowerCase contents definition arithmetic state call) := by
  cases call with
  | prepare tools catalogPartition => exact hsound.prepare tools catalogPartition
  | carry source visible => exact hsound.carry hproper.1 hproper.2
  | statistics synonymsFor toolSets query =>
      exact (hsound.statistics synonymsFor toolSets query).2
  | rank tools query mode statistics exactNameQuery =>
      exact (hsound.ranks arithmetic tools query mode statistics exactNameQuery).2

theorem sound_runCalls {calls : List (Call Tools Tool)}
    (hproper : ∀ call ∈ calls, call.Proper contents) :
    Sound toLowerCase contents definition
      (runCalls toLowerCase contents definition arithmetic calls) := by
  have hrun (calls : List (Call Tools Tool)) (state : SearchState Tools Tool)
      (hsound : Sound toLowerCase contents definition state)
      (hproper : ∀ call ∈ calls, call.Proper contents) :
      Sound toLowerCase contents definition
        (calls.foldl (runCall toLowerCase contents definition arithmetic) state) := by
    induction calls generalizing state with
    | nil => exact hsound
    | cons call rest ih =>
        exact ih _ (hsound.run (hproper call List.mem_cons_self))
          fun other hother => hproper other (List.mem_cons_of_mem _ hother)
  exact hrun calls .initial sound_initial hproper

/-! ## What a search answers -/

section

variable (toLowerCase contents definition arithmetic) (state : SearchState Tools Tool)

/-- The statistics of the arrays that are asked. -/
def statisticsOf (synonymsFor : Option (Tools → Option (JsString → List JsString)))
    (toolSets : List Tools) (query : JsString) : LexicalCorpusStatistics Tool :=
  (lexicalCorpusStatistics toLowerCase contents definition synonymsFor state toolSets query).1

def ranksOf (tools : Tools) (query : JsString) (mode : LexicalMatchMode)
    (statistics : Option (LexicalCorpusStatistics Tool)) (exactNameQuery : Option JsString) :
    List (RankedTool Tool Number) :=
  (rankTools toLowerCase contents definition arithmetic state tools query mode statistics
    exactNameQuery).1

/-- A tool that a term meets, in the head of its document or in the rest. -/
def LexicalCorpusStatistics.Meets (statistics : LexicalCorpusStatistics Tool) (term : JsString)
    (tool : Tool) : Prop :=
  tool ∈ matchesOf statistics.nameMatches term ∨
    tool ∈ matchesOf statistics.descriptionMatches term

/-- A search from a state answers what it answers from indexes of the arrays alone, and what is
retained stays small. -/
structure SearchesAlone : Prop where
  statistics : ∀ synonymsFor toolSets query,
    statisticsOf toLowerCase contents definition state synonymsFor toolSets query =
      statisticsOf toLowerCase contents definition .initial synonymsFor toolSets query
  ranks : ∀ tools query mode statistics exactNameQuery,
    ranksOf toLowerCase contents definition arithmetic state tools query mode statistics
        exactNameQuery =
      ranksOf toLowerCase contents definition arithmetic .initial tools query mode statistics
        exactNameQuery
  /-- A name matches a term of the query, or a synonym of the term. -/
  names : ∀ synonymsFor toolSets query, ∀ term ∈ lexicalQueryTerms toLowerCase query, ∀ tool,
    tool ∈ matchesOf (statisticsOf toLowerCase contents definition state synonymsFor toolSets
        query).nameMatches term ↔
      ∃ tools ∈ toolSets, tool ∈ contents tools ∧
        ∃ word, AsksFor (synonymsFor.bind (· tools)) term word ∧
          matchesLexicalTerm toLowerCase (definition tool).name word = true
  /-- Where no synonyms are given, it is the term. -/
  ownNames : ∀ toolSets query, ∀ term ∈ lexicalQueryTerms toLowerCase query, ∀ tool,
    tool ∈ matchesOf (statisticsOf toLowerCase contents definition state none toolSets
        query).nameMatches term ↔
      ∃ tools ∈ toolSets, tool ∈ contents tools ∧
        matchesLexicalTerm toLowerCase (definition tool).name term = true
  /-- Every token of a title or a description is under some zone, and found as a term. -/
  searchable : ∀ tools, ∀ tool ∈ contents tools, ∀ token,
    token ∈ lexicalTokens toLowerCase (toolTitle (definition tool)) ∨
        token ∈ lexicalTokens toLowerCase (toolDescription (definition tool)) →
      (∃ zone, tool ∈
        (indexFor toLowerCase contents definition state tools).1.under zone token) ∧
      ∀ synonymsFor toolSets query, tools ∈ toolSets →
        token ∈ lexicalQueryTerms toLowerCase query →
        tool ∈ matchesOf (statisticsOf toLowerCase contents definition state synonymsFor toolSets
          query).descriptionMatches token
  /-- Only tools of the arrays are returned. -/
  visible : ∀ synonymsFor toolSets query term tool,
    (statisticsOf toLowerCase contents definition state synonymsFor toolSets query).Meets term
      tool → ∃ tools ∈ toolSets, tool ∈ contents tools
  heads : ∀ synonymsFor toolSets query term tool,
    tool ∈ matchesOf (statisticsOf toLowerCase contents definition state synonymsFor toolSets
        query).headMatches term →
      (statisticsOf toLowerCase contents definition state synonymsFor toolSets query).Meets term
        tool
  visibleRanks : ∀ tools query mode statistics exactNameQuery, ∀ ranked ∈ ranksOf toLowerCase
    contents definition arithmetic state tools query mode statistics exactNameQuery,
    ranked.tool ∈ contents tools
  /-- Only they are counted: in all, and under a term those that meet it, once each. -/
  documentCount : ∀ synonymsFor toolSets query,
    (statisticsOf toLowerCase contents definition state synonymsFor toolSets
      query).documentCount = (toolSets.map fun tools => (contents tools).length).sum
  documentFrequency : ∀ synonymsFor toolSets query,
    ∀ term ∈ lexicalQueryTerms toLowerCase query, ∃ counted : List Tool,
      (statisticsOf toLowerCase contents definition state synonymsFor toolSets
        query).documentFrequency.get? term = some counted.length ∧ counted.Nodup ∧
      ∀ tool, tool ∈ counted ↔
        (statisticsOf toLowerCase contents definition state synonymsFor toolSets query).Meets term
          tool
  few : state.retainedIndexes.size ≤ 4
  total : state.retainedBytes = (state.retainedIndexes.entries.map fun entry => entry.2.2).sum
  bounded : state.retainedBytes ≤ 8 * 1024 * 1024

end

theorem Sound.searchesAlone {state : SearchState Tools Tool}
    (hsound : Sound toLowerCase contents definition state) :
    SearchesAlone toLowerCase contents definition arithmetic state := by
  have hstatistics (synonymsFor : Option (Tools → Option (JsString → List JsString)))
      (toolSets : List Tools) (query : JsString) :
      statisticsOf toLowerCase contents definition state synonymsFor toolSets query =
        scanStatistics toLowerCase contents definition synonymsFor toolSets query :=
    (hsound.statistics synonymsFor toolSets query).1
  have hranks (tools : Tools) (query : JsString) (mode : LexicalMatchMode)
      (statistics : Option (LexicalCorpusStatistics Tool)) (exactNameQuery : Option JsString) :
      ranksOf toLowerCase contents definition arithmetic state tools query mode statistics
          exactNameQuery = rankDocuments toLowerCase arithmetic
        (scanDocuments toLowerCase contents definition tools) query mode
        (statistics.getD (scanStatistics toLowerCase contents definition none [tools] query))
        (exactNameQuery.getD query) :=
    (hsound.ranks arithmetic tools query mode statistics exactNameQuery).1
  have hnames (synonymsFor : Option (Tools → Option (JsString → List JsString)))
      (toolSets : List Tools) (query term : JsString)
      (hterm : term ∈ lexicalQueryTerms toLowerCase query) (tool : Tool) :
      tool ∈ matchesOf (statisticsOf toLowerCase contents definition state synonymsFor toolSets
          query).nameMatches term ↔
        ∃ tools ∈ toolSets, tool ∈ contents tools ∧
          ∃ word, AsksFor (synonymsFor.bind (· tools)) term word ∧
            matchesLexicalTerm toLowerCase (definition tool).name word = true := by
    rw [hstatistics, keeps_name.mem_matched, and_iff_right hterm]
    refine exists_congr fun tools => and_congr_right fun _ => and_congr_right fun _ => ?_
    simp only [candidatesFor, mem_synonymCandidates, matchesLexicalTerm_iff]
    constructor
    · rintro ⟨candidate, ⟨word, hword, hcandidate⟩, _, rfl, htoken⟩
      exact ⟨word, hword, candidate, hcandidate, htoken⟩
    · rintro ⟨word, hword, candidate, hcandidate, htoken⟩
      exact ⟨candidate, ⟨word, hword, hcandidate⟩, _, rfl, htoken⟩
  constructor
  case names => exact hnames
  case few => exact hsound.few
  case total => exact hsound.total
  case bounded => exact hsound.bounded
  case statistics =>
    intro synonymsFor toolSets query
    rw [hstatistics]
    exact (sound_initial.statistics synonymsFor toolSets query).1.symm
  case ranks =>
    intro tools query mode statistics exactNameQuery
    rw [hranks]
    exact (sound_initial.ranks arithmetic tools query mode statistics exactNameQuery).1.symm
  case ownNames =>
    intro toolSets query term hterm tool
    rw [hnames none toolSets query term hterm]
    simp only [Option.bind_none, asksFor_none, exists_eq_left]
  case searchable =>
    intro tools tool htool token htoken
    obtain ⟨zone, hzone, hmem⟩ : ∃ zone, zone ≠ Zone.nameTokens ∧
        token ∈ (searchDocument toLowerCase (definition tool)).tokens zone := by
      rcases htoken with htitle | hdescription
      · exact ⟨.titleTokens, nofun, searchable_title toLowerCase htitle⟩
      · rcases searchable_description toLowerCase hdescription with hsummary | htail
        · exact ⟨.summaryTokens, nofun, hsummary⟩
        · exact ⟨.tailTokens, nofun, htail⟩
    constructor
    · refine ⟨zone, ?_⟩
      rw [(hsound.view tools).1.under_eq]
      exact mem_having.mpr ⟨htool, hmem⟩
    · intro synonymsFor toolSets query htools hterm
      rw [hstatistics, keeps_description.mem_matched]
      exact ⟨hterm, tools, htools, htool, token,
        mem_synonymCandidates.mpr ⟨token, .inl rfl, mem_matchingTokenCandidates token⟩,
        zone, hzone, hmem⟩
  case visible =>
    intro synonymsFor toolSets query term tool hmeets
    rw [hstatistics] at hmeets
    rcases hmeets with hname | hdescription
    · obtain ⟨_, tools, htools, htool, _⟩ := keeps_name.mem_matched.mp hname
      exact ⟨tools, htools, htool⟩
    · obtain ⟨_, tools, htools, htool, _⟩ := keeps_description.mem_matched.mp hdescription
      exact ⟨tools, htools, htool⟩
  case heads =>
    intro synonymsFor toolSets query term tool hhead
    rw [hstatistics] at hhead ⊢
    obtain ⟨hterm, tools, htools, htool, candidate, hcandidate, zone, _, hmem⟩ :=
      keeps_head.mem_matched.mp hhead
    by_cases hname : zone = .nameTokens
    · exact .inl (keeps_name.mem_matched.mpr
        ⟨hterm, tools, htools, htool, candidate, hcandidate, zone, hname, hmem⟩)
    · exact .inr (keeps_description.mem_matched.mpr
        ⟨hterm, tools, htools, htool, candidate, hcandidate, zone, hname, hmem⟩)
  case visibleRanks =>
    intro tools query mode statistics exactNameQuery ranked hranked
    rw [hranks] at hranked
    have hmem := mem_rankDocuments hranked
    rw [scanDocuments, List.map_map] at hmem
    simpa using hmem
  case documentCount =>
    intro synonymsFor toolSets query
    rw [hstatistics]
    exact documentCount_scan toolSets query
  case documentFrequency =>
    intro synonymsFor toolSets query term hterm
    rw [hstatistics]
    refine ⟨_, documentFrequency_scan hterm, nodup_distinct _, fun tool => ?_⟩
    rw [mem_distinct, List.mem_append]
    rfl

/-- Search by index is search by scan, whatever calls came before. -/
theorem indexed_search_alone (calls : List (Call Tools Tool))
    (hproper : ∀ call ∈ calls, call.Proper contents) :
    SearchesAlone toLowerCase contents definition arithmetic
      (runCalls toLowerCase contents definition arithmetic calls) :=
  (sound_runCalls hproper).searchesAlone

/-- Two tools are prepared, and the second is carried on. -/
theorem indexed_search_alone_example :
    let contents (tools : ℕ) : List ℕ := if tools = 0 then [0, 1] else [1]
    let definition (tool : ℕ) : ToolDef :=
      ⟨if tool = 0 then ofAscii "listRepositories" else ofAscii "get_user",
        some (ofAscii "Lists what the account can read."), none, none⟩
    SearchesAlone (·.map smallCase) contents definition doubles
      (runCalls (·.map smallCase) contents definition doubles
        [.prepare 0 (ofAscii "acme"), .carry 0 1]) := by
  intro contents definition
  apply indexed_search_alone
  intro call hcall
  simp only [List.mem_cons, List.not_mem_nil, or_false] at hcall
  rcases hcall with rfl | rfl
  · trivial
  · exact ⟨by decide, by decide⟩

end

end Connecta.Catalog
