import Connecta.Catalog.SearchRanking

/-!
# Scanning tools

The statistics of a query as they come of going through every tool of every array, and which
tools each of their lists has.
-/

namespace Connecta.Catalog

open Connecta.Foundation
open Connecta.Runtime (JsString)
open Connecta.Runtime.JsString (ofAscii)

/-! ## Loops beside a state -/

section

variable {State Result Item : Type*}

/-- A loop whose steps keep a state good and compute what a scan computes is the scan. -/
theorem foldl_scan {Good : State → Prop} {step : Result × State → Item → Result × State}
    (scan : Result → Item → Result)
    (hstep : ∀ progress item, Good progress.2 →
      (step progress item).1 = scan progress.1 item ∧ Good (step progress item).2)
    (items : List Item) {progress : Result × State} (hgood : Good progress.2) :
    (items.foldl step progress).1 = items.foldl scan progress.1 ∧
      Good (items.foldl step progress).2 := by
  induction items generalizing progress with
  | nil => exact ⟨rfl, hgood⟩
  | cons item rest ih =>
      obtain ⟨hresult, hnext⟩ := hstep progress item hgood
      rw [List.foldl_cons, List.foldl_cons, ← hresult]
      exact ih hnext

/-- What each step adds is there after the loop, and nothing else. -/
theorem foldl_adds {Member : Type*} {found : Result → List Member} {other : Member}
    {step : Result → Item → Result} {adds : Item → Prop}
    (hstep : ∀ progress item,
      other ∈ found (step progress item) ↔ other ∈ found progress ∨ adds item)
    (items : List Item) (progress : Result) :
    other ∈ found (items.foldl step progress) ↔
      other ∈ found progress ∨ ∃ item ∈ items, adds item := by
  induction items generalizing progress with
  | nil => simp
  | cons item rest ih =>
      rw [List.foldl_cons, ih, hstep, List.exists_mem_cons_iff, or_assoc]

/-- A map that each step sets has what the keys gone through have. -/
theorem foldl_set {Key Value : Type*} [DecidableEq Key] {map : Result → OrderedMap Key Value}
    {step : Result → Key → Result} {value : Key → Value}
    (hstep : ∀ progress key, map (step progress key) = (map progress).set key (value key))
    (keys : List Key) (progress : Result) (key : Key) :
    (map (keys.foldl step progress)).get? key =
      if key ∈ keys then some (value key) else (map progress).get? key := by
  induction keys generalizing progress with
  | nil => rw [List.foldl_nil, if_neg List.not_mem_nil]
  | cons first rest ih =>
      rw [List.foldl_cons, ih, hstep, OrderedMap.get?_set]
      by_cases hrest : key ∈ rest
      · rw [if_pos hrest, if_pos (List.mem_cons_of_mem _ hrest)]
      · by_cases hfirst : key = first
        · subst hfirst
          rw [if_neg hrest, if_pos rfl, if_pos List.mem_cons_self]
        · rw [if_neg hrest, if_neg hfirst, if_neg (by simp [hfirst, hrest])]

end

section

variable {Tools Tool : Type*}
variable (toLowerCase : JsString → JsString)
variable (contents : Tools → List Tool) (definition : Tool → ToolDef)

/-! ## Scanning -/

section

variable [DecidableEq Tool]
variable (synonymsFor : Option (Tools → Option (JsString → List JsString)))

/-- The tools of an array whose zone has a token. -/
def scanUnder (tools : Tools) (zone : Zone) (token : JsString) : List Tool :=
  having (fun tool => (searchDocument toLowerCase (definition tool)).tokens zone) token
    (contents tools)

def scanTools (term : JsString) (found : TermMatches Tool) (tools : Tools) : TermMatches Tool :=
  (candidatesFor synonymsFor term tools).foldl
    (addCandidate (scanUnder toLowerCase contents definition tools)) found

def scanTerm (toolSets : List Tools) (term : JsString) : TermMatches Tool :=
  toolSets.foldl (scanTools toLowerCase contents definition synonymsFor term) ⟨[], [], []⟩

def scanStatistics (toolSets : List Tools) (query : JsString) : LexicalCorpusStatistics Tool :=
  let terms := lexicalQueryTerms toLowerCase query
  if terms = [] then noMatches contents toolSets
  else (terms.foldl (fun statistics term => statistics.setTerm term
    (scanTerm toLowerCase contents definition synonymsFor toolSets term))
    (noMatches contents toolSets)).countTerms terms

def scanDocuments (tools : Tools) : List (SearchDocument × Tool) :=
  (contents tools).map fun tool => (searchDocument toLowerCase (definition tool), tool)

end

variable {toLowerCase contents definition}

/-! ## What a scan finds -/

section

variable [DecidableEq Tool] {synonymsFor : Option (Tools → Option (JsString → List JsString))}

/-- A list of found tools that takes those of some zones. -/
def Takes (found : TermMatches Tool → List Tool) (takes : Zone → Prop) : Prop :=
  ∀ zone progress tool other, other ∈ found (progress.add zone tool) ↔
    other ∈ found progress ∨ (takes zone ∧ other = tool)

theorem takes_name : @Takes Tool _ TermMatches.name (· = .nameTokens) := by
  intro zone progress tool other
  cases zone with
  | nameTokens => simp [TermMatches.add, mem_adjoin]
  | titleTokens => simp [TermMatches.add]
  | summaryTokens => simp [TermMatches.add]
  | tailTokens => simp [TermMatches.add]

theorem takes_description : @Takes Tool _ TermMatches.description (· ≠ .nameTokens) := by
  intro zone progress tool other
  cases zone with
  | nameTokens => simp [TermMatches.add]
  | titleTokens => simp [TermMatches.add, mem_adjoin]
  | summaryTokens => simp [TermMatches.add, mem_adjoin]
  | tailTokens => simp [TermMatches.add, mem_adjoin]

theorem takes_head : @Takes Tool _ TermMatches.head (· ≠ .tailTokens) := by
  intro zone progress tool other
  cases zone with
  | nameTokens => simp [TermMatches.add, mem_adjoin]
  | titleTokens => simp [TermMatches.add, mem_adjoin]
  | summaryTokens => simp [TermMatches.add, mem_adjoin]
  | tailTokens => simp [TermMatches.add]

variable {found : TermMatches Tool → List Tool} {takes : Zone → Prop}

theorem Takes.addCandidate (htakes : Takes found takes) (other : Tool)
    (under : Zone → JsString → List Tool) (progress : TermMatches Tool) (candidate : JsString) :
    other ∈ found (Catalog.addCandidate under progress candidate) ↔
      other ∈ found progress ∨ ∃ zone, takes zone ∧ other ∈ under zone candidate := by
  have hshown (progress : TermMatches Tool) (zone : Zone) :
      other ∈ found ((under zone candidate).foldl (TermMatches.add zone) progress) ↔
        other ∈ found progress ∨ (takes zone ∧ other ∈ under zone candidate) := by
    rw [foldl_adds fun progress tool => htakes zone progress tool other]
    simp [and_comm]
  have hall (zone : Zone) : zone ∈ zones := by
    cases zone <;> decide
  rw [Catalog.addCandidate, foldl_adds hshown]
  simp only [hall, true_and]

theorem Takes.scanTerm (htakes : Takes found takes) (hnone : found ⟨[], [], []⟩ = [])
    (toolSets : List Tools) (term : JsString) (other : Tool) :
    other ∈ found (scanTerm toLowerCase contents definition synonymsFor toolSets term) ↔
      ∃ tools ∈ toolSets, ∃ candidate ∈ candidatesFor synonymsFor term tools,
        ∃ zone, takes zone ∧
          other ∈ scanUnder toLowerCase contents definition tools zone candidate := by
  have htools (progress : TermMatches Tool) (tools : Tools) :
      other ∈ found (scanTools toLowerCase contents definition synonymsFor term progress tools) ↔
        other ∈ found progress ∨ ∃ candidate ∈ candidatesFor synonymsFor term tools,
          ∃ zone, takes zone ∧
            other ∈ scanUnder toLowerCase contents definition tools zone candidate :=
    foldl_adds (htakes.addCandidate other _) _ progress
  rw [Catalog.scanTerm, foldl_adds htools, hnone, or_iff_right List.not_mem_nil]

variable (contents) in
/-- A list of the statistics, which has a term's tools from the zones it takes. -/
structure Keeps (matched : LexicalCorpusStatistics Tool → OrderedMap JsString (List Tool))
    (found : TermMatches Tool → List Tool) (takes : Zone → Prop) : Prop where
  takes : Takes found takes
  none : found ⟨[], [], []⟩ = []
  start : ∀ toolSets : List Tools, matched (noMatches contents toolSets) = .empty
  setTerm : ∀ (statistics : LexicalCorpusStatistics Tool) term progress,
    matched (statistics.setTerm term progress) = (matched statistics).set term (found progress)
  countTerms : ∀ (statistics : LexicalCorpusStatistics Tool) terms,
    matched (statistics.countTerms terms) = matched statistics

theorem keeps_name :
    Keeps contents LexicalCorpusStatistics.nameMatches TermMatches.name (· = .nameTokens) :=
  ⟨takes_name, rfl, fun _ => rfl, fun _ _ _ => rfl, fun _ _ => rfl⟩

theorem keeps_description : Keeps contents LexicalCorpusStatistics.descriptionMatches
    TermMatches.description (· ≠ .nameTokens) :=
  ⟨takes_description, rfl, fun _ => rfl, fun _ _ _ => rfl, fun _ _ => rfl⟩

theorem keeps_head :
    Keeps contents LexicalCorpusStatistics.headMatches TermMatches.head (· ≠ .tailTokens) :=
  ⟨takes_head, rfl, fun _ => rfl, fun _ _ _ => rfl, fun _ _ => rfl⟩

variable {matched : LexicalCorpusStatistics Tool → OrderedMap JsString (List Tool)}

/-- A list of the statistics has, under a term of the query, the tools that have a candidate of
the term in a zone the list takes. -/
theorem Keeps.mem_matched (hkeeps : Keeps contents matched found takes) {toolSets : List Tools}
    {query term : JsString} {tool : Tool} :
    tool ∈ matchesOf (matched (scanStatistics toLowerCase contents definition synonymsFor toolSets
        query)) term ↔
      term ∈ lexicalQueryTerms toLowerCase query ∧ ∃ tools ∈ toolSets, tool ∈ contents tools ∧
        ∃ candidate ∈ candidatesFor synonymsFor term tools, ∃ zone, takes zone ∧
          candidate ∈ (searchDocument toLowerCase (definition tool)).tokens zone := by
  have hset (statistics : LexicalCorpusStatistics Tool) (term : JsString) :=
    hkeeps.setTerm statistics term
      (scanTerm toLowerCase contents definition synonymsFor toolSets term)
  have hunder (tools : Tools) :
      (∃ candidate ∈ candidatesFor synonymsFor term tools, ∃ zone, takes zone ∧
        tool ∈ scanUnder toLowerCase contents definition tools zone candidate) ↔
      tool ∈ contents tools ∧ ∃ candidate ∈ candidatesFor synonymsFor term tools,
        ∃ zone, takes zone ∧
          candidate ∈ (searchDocument toLowerCase (definition tool)).tokens zone := by
    simp only [scanUnder, mem_having]
    constructor
    · rintro ⟨candidate, hcandidate, zone, htakes, htool, htoken⟩
      exact ⟨htool, candidate, hcandidate, zone, htakes, htoken⟩
    · rintro ⟨htool, candidate, hcandidate, zone, htakes, htoken⟩
      exact ⟨candidate, hcandidate, zone, htakes, htool, htoken⟩
  rw [matchesOf, scanStatistics]
  split_ifs with hterms
  · rw [hkeeps.start, hterms]
    exact iff_of_false List.not_mem_nil fun hmem => absurd hmem.1 List.not_mem_nil
  · rw [hkeeps.countTerms, foldl_set hset]
    split_ifs with hterm
    · rw [Option.getD_some, hkeeps.takes.scanTerm hkeeps.none, and_iff_right hterm]
      simp only [hunder]
    · rw [hkeeps.start]
      exact iff_of_false List.not_mem_nil fun hmem => hterm hmem.1

/-- The frequency of a term is the number of the tools that meet it. -/
theorem documentFrequency_scan {toolSets : List Tools} {query term : JsString}
    (hterm : term ∈ lexicalQueryTerms toLowerCase query) :
    (scanStatistics toLowerCase contents definition synonymsFor toolSets
        query).documentFrequency.get? term =
      some (distinct (matchesOf (scanStatistics toLowerCase contents definition synonymsFor
          toolSets query).nameMatches term ++
        matchesOf (scanStatistics toLowerCase contents definition synonymsFor toolSets
          query).descriptionMatches term)).length := by
  have hcounts (statistics : LexicalCorpusStatistics Tool) :
      (statistics.countTerms (lexicalQueryTerms toLowerCase query)).documentFrequency.get? term =
        some (distinct (matchesOf statistics.nameMatches term ++
          matchesOf statistics.descriptionMatches term)).length := by
    have hset (counts : OrderedMap JsString ℕ) (term : JsString) :
        id (counts.set term (distinct (matchesOf statistics.nameMatches term ++
          matchesOf statistics.descriptionMatches term)).length) = (id counts).set term _ := rfl
    exact (foldl_set hset (lexicalQueryTerms toLowerCase query) .empty term).trans (if_pos hterm)
  rw [scanStatistics, if_neg (List.ne_nil_of_mem hterm)]
  exact hcounts _

theorem documentCount_scan (toolSets : List Tools) (query : JsString) :
    (scanStatistics toLowerCase contents definition synonymsFor toolSets query).documentCount =
      documentCount contents toolSets := by
  have hcount (terms : List JsString) (scan : JsString → TermMatches Tool)
      (statistics : LexicalCorpusStatistics Tool) :
      (terms.foldl (fun statistics term => statistics.setTerm term (scan term))
        statistics).documentCount = statistics.documentCount := by
    induction terms generalizing statistics with
    | nil => rfl
    | cons term rest ih => exact ih (statistics.setTerm term (scan term))
  rw [scanStatistics]
  split_ifs
  · rfl
  · exact hcount _ _ _

/-- The tools of a rank are those of the documents. -/
theorem mem_rankDocuments {Number : Type*} {arithmetic : Arithmetic Number}
    {documents : List (SearchDocument × Tool)} {query exactNameQuery : JsString}
    {mode : LexicalMatchMode} {statistics : LexicalCorpusStatistics Tool}
    {ranked : RankedTool Tool Number} (hranked : ranked ∈ rankDocuments toLowerCase arithmetic
      documents query mode statistics exactNameQuery) :
    ranked.tool ∈ documents.map Prod.snd := by
  obtain ⟨⟨⟨document, tool⟩, order⟩, hmem, hscored⟩ := List.mem_filterMap.mp hranked
  obtain ⟨scored, _, rfl⟩ := Option.map_eq_some_iff.mp hscored
  exact List.mem_map_of_mem (List.fst_mem_of_mem_zipIdx hmem)

end

end

end Connecta.Catalog
