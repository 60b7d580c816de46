import Mathlib
import Connecta.Catalog.SearchIndexes

/-!
# Search statistics and ranking

The tools each term of a query meets, across every catalog asked, and the score of each tool a
catalog shows.  Both read a catalog through its view, which is built and bound where it has none.
The arithmetic of scores is a parameter.
-/

namespace Connecta.Catalog

open Connecta.Foundation
open Connecta.Runtime (JsString)
open Connecta.Runtime.JsString (ofAscii)

/-- The numbers of scores. -/
structure Arithmetic (Number : Type*) where
  number : ℚ → Number
  add : Number → Number → Number
  sub : Number → Number → Number
  mul : Number → Number → Number
  div : Number → Number → Number
  /-- `x ** 2` -/
  square : Number → Number
  log : Number → Number
  /-- `x >= y` -/
  atLeast : Number → Number → Bool

def doubles : Arithmetic Float where
  number value := Float.ofInt value.num / Float.ofNat value.den
  add := (· + ·)
  sub := (· - ·)
  mul := (· * ·)
  div := (· / ·)
  square value := value * value
  log := Float.log
  atLeast left right := decide (right ≤ left)

structure LexicalCorpusStatistics (Tool : Type*) where
  documentCount : ℕ
  documentFrequency : OrderedMap JsString ℕ
  nameMatches : OrderedMap JsString (List Tool)
  /-- Every zone other than the name: title, summary and tail. -/
  descriptionMatches : OrderedMap JsString (List Tool)
  /-- The zones a tool can be complete on: name, title and summary. -/
  headMatches : OrderedMap JsString (List Tool)

/-- The tools one term has met. -/
structure TermMatches (Tool : Type*) where
  name : List Tool
  description : List Tool
  head : List Tool

inductive LexicalMatchMode where
  | all
  | partialMatch
  deriving DecidableEq

structure Scored (Number : Type*) where
  score : Number
  matchedTermCount : ℕ
  headTerms : List JsString
  nameTerms : List JsString
  namesDistinctiveTerm : Bool

structure RankedTool (Tool Number : Type*) extends Scored Number where
  tool : Tool
  order : ℕ
  exactName : Bool

section

variable {Tools Tool Number : Type*} [DecidableEq Tools] [DecidableEq Tool]
variable (toLowerCase : JsString → JsString)
variable (contents : Tools → List Tool) (definition : Tool → ToolDef)

/-! ## Statistics -/

/-- The members under a key; none where it has no entry. -/
def matchesOf (matched : OrderedMap JsString (List Tool)) (term : JsString) : List Tool :=
  (matched.get? term).getD []

/-- Name and title, summary and tail: only the tail is outside the head. -/
def TermMatches.add (zone : Zone) (found : TermMatches Tool) (tool : Tool) : TermMatches Tool :=
  match zone with
  | .nameTokens => { found with name := adjoin found.name tool, head := adjoin found.head tool }
  | .titleTokens =>
      { found with
        description := adjoin found.description tool
        head := adjoin found.head tool }
  | .summaryTokens =>
      { found with
        description := adjoin found.description tool
        head := adjoin found.head tool }
  | .tailTokens => { found with description := adjoin found.description tool }

/-- What each zone shows under a candidate is added. -/
def addCandidate (under : Zone → JsString → List Tool) (found : TermMatches Tool)
    (candidate : JsString) : TermMatches Tool :=
  zones.foldl (fun found zone => (under zone candidate).foldl (TermMatches.add zone) found) found

section

variable (synonymsFor : Option (Tools → Option (JsString → List JsString)))

def candidatesFor (term : JsString) (tools : Tools) : List JsString :=
  synonymCandidates term (synonymsFor.bind (· tools))

def collectTools (term : JsString) (progress : TermMatches Tool × SearchState Tools Tool)
    (tools : Tools) : TermMatches Tool × SearchState Tools Tool :=
  let (view, state) := indexFor toLowerCase contents definition progress.2 tools
  ((candidatesFor synonymsFor term tools).foldl (addCandidate view.under) progress.1, state)

def LexicalCorpusStatistics.setTerm (statistics : LexicalCorpusStatistics Tool) (term : JsString)
    (found : TermMatches Tool) : LexicalCorpusStatistics Tool :=
  { statistics with
    nameMatches := statistics.nameMatches.set term found.name
    descriptionMatches := statistics.descriptionMatches.set term found.description
    headMatches := statistics.headMatches.set term found.head }

def collectTerm (toolSets : List Tools)
    (progress : LexicalCorpusStatistics Tool × SearchState Tools Tool) (term : JsString) :
    LexicalCorpusStatistics Tool × SearchState Tools Tool :=
  let (found, state) := toolSets.foldl (collectTools toLowerCase contents definition synonymsFor
    term) (⟨[], [], []⟩, progress.2)
  (progress.1.setTerm term found, state)

/-- How many tools each term meets, by name or by description. -/
def LexicalCorpusStatistics.countTerms (statistics : LexicalCorpusStatistics Tool)
    (terms : List JsString) : LexicalCorpusStatistics Tool :=
  { statistics with
    documentFrequency := terms.foldl (fun counts term => counts.set term
      (distinct (matchesOf statistics.nameMatches term ++
        matchesOf statistics.descriptionMatches term)).length) .empty }

def documentCount (toolSets : List Tools) : ℕ :=
  (toolSets.map fun tools => (contents tools).length).sum

/-- No term has met a tool. -/
def noMatches (toolSets : List Tools) : LexicalCorpusStatistics Tool :=
  ⟨documentCount contents toolSets, .empty, .empty, .empty, .empty⟩

/-- `synonymsFor` gives a catalog's lexical synonyms, word to equivalent words: a term then
matches a tool through any of them, as plain whole tokens. -/
def lexicalCorpusStatistics (state : SearchState Tools Tool) (toolSets : List Tools)
    (query : JsString) : LexicalCorpusStatistics Tool × SearchState Tools Tool :=
  let terms := lexicalQueryTerms toLowerCase query
  if terms = [] then (noMatches contents toolSets, state)
  else
    let (statistics, state) := terms.foldl
      (collectTerm toLowerCase contents definition synonymsFor toolSets)
      (noMatches contents toolSets, state)
    (statistics.countTerms terms, state)

end

/-! ## Scores -/

section

variable (arithmetic : Arithmetic Number) (statistics : LexicalCorpusStatistics Tool)

def inverseDocumentFrequency (term : JsString) : Number :=
  let half := arithmetic.number (1 / 2)
  let frequency := arithmetic.number ((statistics.documentFrequency.get? term).getD 0 : ℕ)
  let count := arithmetic.number statistics.documentCount
  arithmetic.log (arithmetic.add (arithmetic.number 1)
    (arithmetic.div (arithmetic.add (arithmetic.sub count frequency) half)
      (arithmetic.add frequency half)))

/-- The sum of what each term weighs. -/
def totalWeight (terms : List JsString) : Number :=
  terms.foldl (fun total term =>
    arithmetic.add total (inverseDocumentFrequency arithmetic statistics term))
    (arithmetic.number 0)

/-- A term met only in the description's tail is weak coverage. -/
def coverageScore (matchedTerms : List JsString) (tool : Tool) : Number :=
  matchedTerms.foldl (fun total term =>
    let inHead := (matchesOf statistics.headMatches term).contains tool
    arithmetic.add total (arithmetic.mul (arithmetic.number (if inHead then 4 else 1))
      (inverseDocumentFrequency arithmetic statistics term))) (arithmetic.number 0)

/-- The name is the phrase, or begins with it, or has it among its words. -/
def phraseScore (name phrase : JsString) (phraseWeight score : Number) : Number :=
  if name = phrase then arithmetic.add score (arithmetic.mul (arithmetic.number 40) phraseWeight)
  else if phrase ++ [space] <+: name then
    arithmetic.add score (arithmetic.mul (arithmetic.number 24) phraseWeight)
  else if space :: phrase ++ [space] <:+: space :: name ++ [space] then
    arithmetic.add score (arithmetic.mul (arithmetic.number 16) phraseWeight)
  else score

/-- A term reaching a zone only through an inflection or synonym earns half. -/
def termScore (document : SearchDocument) (tool : Tool) (score : Number) (term : JsString) :
    Number :=
  let weight := inverseDocumentFrequency arithmetic statistics term
  let earn (score : Number) (share : ℚ) :=
    arithmetic.add score (arithmetic.mul (arithmetic.number share) weight)
  let score := if document.nameTokens.contains term then earn score 12
    else if (matchesOf statistics.nameMatches term).contains tool then earn score 8
    else score
  if document.summaryTokens.contains term then earn score 3
  else if document.titleTokens.contains term then earn score 2
  else if document.tailTokens.contains term then earn score (1 / 2)
  else if (matchesOf statistics.headMatches term).contains tool then earn score (3 / 2)
  else if (matchesOf statistics.descriptionMatches term).contains tool then earn score (1 / 4)
  else score

/-- Partial evidence earns only its squared share of the query's rarity, wherever it appears. -/
def documentScore (document : SearchDocument) (tool : Tool) (phrase : JsString)
    (terms matchedTerms : List JsString) : Number :=
  let phraseWeight := totalWeight arithmetic statistics terms
  let score := phraseScore arithmetic document.name phrase phraseWeight
    (coverageScore arithmetic statistics matchedTerms tool)
  let score := matchedTerms.foldl (termScore arithmetic statistics document tool) score
  arithmetic.mul score (arithmetic.square
    (arithmetic.div (totalWeight arithmetic statistics matchedTerms) phraseWeight))

def scoreDocument (document : SearchDocument) (tool : Tool) (phrase : JsString)
    (terms : List JsString) (mode : LexicalMatchMode) : Option (Scored Number) :=
  if phrase = [] then some ⟨arithmetic.number 0, 0, [], [], false⟩
  else
    let named (term : JsString) := (matchesOf statistics.nameMatches term).contains tool
    let matchedTerms := terms.filter fun term =>
      named term || (matchesOf statistics.descriptionMatches term).contains tool
    if mode = .all ∧ matchedTerms.length ≠ terms.length then none
    else if matchedTerms = [] then none
    else
      let averageWeight := arithmetic.div (totalWeight arithmetic statistics terms)
        (arithmetic.number terms.length)
      let nameTerms := matchedTerms.filter named
      some
        { score := documentScore arithmetic statistics document tool phrase terms matchedTerms
          matchedTermCount := matchedTerms.length
          headTerms := matchedTerms.filter fun term =>
            (matchesOf statistics.headMatches term).contains tool
          nameTerms := nameTerms
          namesDistinctiveTerm := nameTerms.any fun term =>
            arithmetic.atLeast (inverseDocumentFrequency arithmetic statistics term)
              averageWeight }

end

def queryContainsExactName (document : SearchDocument) (phrase : JsString) : Bool :=
  if document.name = [] ∨ phrase = [] then false
  else decide (space :: document.name ++ [space] <:+: space :: phrase ++ [space])

/-! ## Ranking -/

/-- The tools of some documents that score, each with its place among the visible ones. -/
def rankDocuments (arithmetic : Arithmetic Number) (documents : List (SearchDocument × Tool))
    (query : JsString) (mode : LexicalMatchMode) (statistics : LexicalCorpusStatistics Tool)
    (exactNameQuery : JsString) : List (RankedTool Tool Number) :=
  let phrase := normalized toLowerCase query
  let exactNamePhrase := normalized toLowerCase exactNameQuery
  let terms := distinct (words phrase)
  documents.zipIdx.filterMap fun ((document, tool), visibleOrder) =>
    (scoreDocument arithmetic statistics document tool phrase terms mode).map fun scored =>
      { toScored := scored
        tool := tool
        order := visibleOrder
        exactName := queryContainsExactName document exactNamePhrase }

/-- `exactNameQuery` may retain framing removed from the scoring query: those words are weak
term evidence, but remain part of a real tool-name phrase. -/
def rankTools (arithmetic : Arithmetic Number) (state : SearchState Tools Tool) (tools : Tools)
    (query : JsString) (mode : LexicalMatchMode)
    (statistics : Option (LexicalCorpusStatistics Tool)) (exactNameQuery : Option JsString) :
    List (RankedTool Tool Number) × SearchState Tools Tool :=
  let (statistics, state) := match statistics with
    | some statistics => (statistics, state)
    | none => lexicalCorpusStatistics toLowerCase contents definition none state [tools] query
  let (view, state) := indexFor toLowerCase contents definition state tools
  (rankDocuments toLowerCase arithmetic (shownDocuments view.index.documents view.tools) query
    mode statistics (exactNameQuery.getD query), state)

end

end Connecta.Catalog
