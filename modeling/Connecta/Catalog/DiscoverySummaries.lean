import Connecta.Foundation.Postings
import Connecta.Runtime.Percent

/-!
# Lexical tokens

What search reads of a text: the words of a name or a description, the summary a description
opens with, and the spellings under which a word of a query is looked up.
-/

namespace Connecta.Catalog

open Connecta.Foundation
open Connecta.Runtime (JsString CodeUnit ascii)
open Connecta.Runtime.JsString (ofAscii whiteSpace trimEnd highSurrogate)

/-! ## Characters -/

def newline : CodeUnit := 0x0A

def space : CodeUnit := 0x20

def capitalLetter (unit : CodeUnit) : Bool := ascii 'A' ≤ unit && unit ≤ ascii 'Z'

def smallLetter (unit : CodeUnit) : Bool := ascii 'a' ≤ unit && unit ≤ ascii 'z'

def decimalDigit (unit : CodeUnit) : Bool := ascii '0' ≤ unit && unit ≤ ascii '9'

def tokenUnit (unit : CodeUnit) : Bool := smallLetter unit || decimalDigit unit

/-- `split(/\s+/).filter(Boolean)` -/
def words (text : JsString) : List JsString := (text.splitOnP whiteSpace).filter (· ≠ [])

/-- `join(" ")` -/
def joined (words : List JsString) : JsString := [space].intercalate words

/-! ## What search shows of a description -/

def discoveryDescriptionLength : ℕ := 160

def discoveryDescriptionMinimum : ℕ := 40

/-- `split(/\n\s*\n/)`, behind so many units of a break: a break goes from a newline to the
last one in the white space that follows. -/
def paragraphsFrom : ℕ → JsString → List JsString
  | _, [] => [[]]
  | skip + 1, _ :: rest => paragraphsFrom skip rest
  | 0, unit :: rest =>
      let gap := (rest.takeWhile whiteSpace).rdropWhile (· ≠ newline)
      if unit = newline ∧ gap ≠ [] then [] :: paragraphsFrom gap.length rest
      else match paragraphsFrom 0 rest with
        | [] => [[unit]]
        | first :: more => (unit :: first) :: more

/-- The paragraphs, each on one line with one space between words. -/
def markedText (text : JsString) : JsString :=
  let trimmed := trimEnd (text.dropWhile whiteSpace)
  let paragraphs := (paragraphsFrom 0 trimmed).map fun paragraph => joined (words paragraph)
  [newline].intercalate (paragraphs.filter (· ≠ []))

def sentenceMark (unit : CodeUnit) : Bool :=
  unit = ascii '.' || unit = ascii '!' || unit = ascii '?'

/-- `["'\x60)\]]` -/
def closingMark (unit : CodeUnit) : Bool :=
  unit = ascii '"' || unit = 0x27 || unit = 0x60 || unit = ascii ')' || unit = ascii ']'

/-- Where a match of `SENTENCE_END` lets a sentence end, from an index on and behind so many
units of the last match. -/
def sentenceEnds : ℕ → ℕ → JsString → List ℕ
  | _, _, [] => []
  | index, skip + 1, _ :: rest => sentenceEnds (index + 1) skip rest
  | index, 0, unit :: rest =>
      if unit = newline then index :: sentenceEnds (index + 1) 0 rest
      else
        let closing := rest.takeWhile closingMark
        let behind := (rest.dropWhile closingMark).head?
        if sentenceMark unit ∧ (behind = none ∨ behind = some space ∨ behind = some newline) then
          (index + 1 + closing.length) :: sentenceEnds (index + 1) closing.length rest
        else sentenceEnds (index + 1) 0 rest

/-- A letter as `/i` reads it. -/
def smallCase (unit : CodeUnit) : CodeUnit :=
  if capitalLetter unit then unit + 0x20 else unit

def abbreviation (word : JsString) : Bool :=
  ((["e.g", "i.e", "etc", "vs", "cf", "approx"].map ofAscii).contains (word.map smallCase)) ||
    (match word with
      | [letter] => smallLetter (smallCase letter)
      | _ => false)

/-- `ABBREVIATED` : the period at the end follows an initial or a common abbreviation. -/
def abbreviated (text : JsString) : Bool :=
  let body := text.dropLast
  decide (text.getLast? = some (ascii '.')) && (List.range (body.length + 1)).any fun start =>
    abbreviation (body.drop start) && match (body.take start).getLast? with
      | none => true
      | some unit => whiteSpace unit || unit = ascii '(' || unit = ascii '.'

/-- The first end of a sentence that is neither too early nor too late. -/
def summaryEnd (marked : JsString) : Option ℕ :=
  (((sentenceEnds 0 0 marked).filter (discoveryDescriptionMinimum ≤ ·)).takeWhile
    (· ≤ discoveryDescriptionLength)).find? fun candidate =>
      !abbreviated ((marked.take candidate).drop (candidate - 8))

/-- `lastIndexOf(" ", cut)` -/
def lastSpace (text : JsString) (cut : ℕ) : Option ℕ :=
  ((List.range (cut + 1)).filter fun index => text[index]? = some space).getLast?

/-- Where a text without such an end is cut: at a word, and never within a character. -/
def summaryCut (whole : JsString) : ℕ :=
  let cut := discoveryDescriptionLength - 1
  match (lastSpace whole cut).filter (discoveryDescriptionMinimum ≤ ·) with
  | some space => space
  | none => if (whole[cut - 1]?).any highSurrogate then cut - 1 else cut

/-- The summary, and whether text was left out. -/
def discoverySummary (text : JsString) : JsString × Bool :=
  let marked := markedText text
  let whole := marked.map fun unit => if unit = newline then space else unit
  match summaryEnd marked with
  | some finish => (whole.take finish, decide (finish < whole.length))
  | none =>
      if whole.length ≤ discoveryDescriptionLength then (whole, false)
      else (trimEnd (whole.take (summaryCut whole)) ++ [0x2026], true)

/-! ## Tokens -/

/-- `replace(/([A-Z]+)([A-Z][a-z])/g, "$1 $2")` : a space before the last of several capitals
that a small letter follows. -/
def spaceAcronyms : JsString → JsString
  | first :: second :: third :: rest =>
      if capitalLetter first && capitalLetter second && smallLetter third then
        first :: space :: spaceAcronyms (second :: third :: rest)
      else first :: spaceAcronyms (second :: third :: rest)
  | text => text

/-- `replace(/([a-z0-9])([A-Z])/g, "$1 $2")` -/
def spaceCapitals : JsString → JsString
  | first :: second :: rest =>
      if tokenUnit first && capitalLetter second then
        first :: space :: spaceCapitals (second :: rest)
      else first :: spaceCapitals (second :: rest)
  | text => text

section

variable (toLowerCase : JsString → JsString)

def lexicalTokens (text : JsString) : List JsString :=
  ((toLowerCase (spaceCapitals (spaceAcronyms text))).splitOnP (!tokenUnit ·)).filter (· ≠ [])

def normalized (text : JsString) : JsString := joined (lexicalTokens toLowerCase text)

/-- Distinct normalized terms in query order, shared by ranking and feedback. -/
def lexicalQueryTerms (query : JsString) : List JsString :=
  distinct (lexicalTokens toLowerCase query)

end

/-! ## The spellings of a term -/

def inflectionVariants (base : JsString) : List JsString :=
  [base ++ ofAscii "s", base ++ ofAscii "es", base ++ ofAscii "ed"] ++
    (if (ofAscii "e").isSuffixOf base then [base ++ ofAscii "d"] else []) ++
    (if (ofAscii "y").isSuffixOf base then
      [base.dropLast ++ ofAscii "ies", base.dropLast ++ ofAscii "ied"] else [])

/-- Shortenings API names use for words people write out. -/
def abbreviations : List (JsString × JsString) :=
  ([("config", "configuration"), ("db", "database"), ("doc", "document"),
    ("env", "environment"), ("org", "organization"), ("repo", "repository"),
    ("var", "variable")]).flatMap fun (short, long) =>
      [(ofAscii short, ofAscii long), (ofAscii long, ofAscii short)]

/-- The other word of an abbreviation and its variants. -/
def otherSpellings (candidate : JsString) : List JsString :=
  match abbreviations.lookup candidate with
  | none => []
  | some other => other :: inflectionVariants other

/-- The words of which a term may be a variant. -/
def possibleBases (term : JsString) : List JsString :=
  [(1, "s", ""), (2, "es", ""), (2, "ed", ""), (1, "d", ""), (3, "ies", "y"),
    (3, "ied", "y")].filterMap fun (cut, suffix, added) =>
      if (ofAscii suffix).isSuffixOf term then
        some (term.take (term.length - cut) ++ ofAscii added)
      else none

/-- The loop over a set that grows while it is gone through: `pending` are the members it has
yet to come to. -/
def expand : ℕ → List JsString → List JsString → List JsString
  | 0, members, _ => members
  | _ + 1, members, [] => members
  | fuel + 1, members, candidate :: pending =>
      let grown := adjoinAll members (otherSpellings candidate)
      expand fuel grown (pending ++ grown.drop members.length)

/-- Every spelling the loop can add. -/
def allSpellings : List JsString := abbreviations.flatMap fun (word, _) => otherSpellings word

/-- The term, its variants and the words it is a variant of. -/
def inflectedForms (term : JsString) : List JsString :=
  adjoinAll (distinct (term :: inflectionVariants term))
    ((possibleBases term).filter fun base => base ≠ [] && (inflectionVariants base).contains term)

def matchingTokenCandidates (term : JsString) : List JsString :=
  expand ((inflectedForms term).length + allSpellings.length) (inflectedForms term)
    (inflectedForms term)

/-- Whether one query term matches a whole token of arbitrary text, under the same inflection
rules the tool index uses. -/
def matchesLexicalTerm (toLowerCase : JsString → JsString) (text term : JsString) : Bool :=
  (matchingTokenCandidates term).any ((lexicalTokens toLowerCase text).contains ·)

theorem otherSpellings_subset (candidate : JsString) :
    otherSpellings candidate ⊆ allSpellings := by
  intro spelling hspelling
  have hfound : (abbreviations.lookup candidate).isSome := by
    rw [otherSpellings] at hspelling
    cases hlookup : abbreviations.lookup candidate with
    | none =>
        rw [hlookup] at hspelling
        exact absurd hspelling List.not_mem_nil
    | some other => rfl
  obtain ⟨other, hother⟩ := Option.isSome_iff_exists.mp hfound
  obtain ⟨before, after, hpairs, _⟩ := List.lookup_eq_some_iff.mp hother
  rw [allSpellings, List.mem_flatMap]
  exact ⟨(candidate, other), hpairs ▸ List.mem_append_right _ List.mem_cons_self, hspelling⟩

/-- The members of a set that are not spellings of its own, and what the loop has yet to do. -/
theorem expand_closed {fuel : ℕ} {members pending : List JsString} (hnodup : members.Nodup)
    (hvisited : ∀ member ∈ members, member ∈ pending ∨ otherSpellings member ⊆ members)
    (hfuel : pending.length + (missing allSpellings members).length ≤ fuel) :
    members ⊆ expand fuel members pending ∧ ∀ candidate ∈ expand fuel members pending,
      otherSpellings candidate ⊆ expand fuel members pending := by
  induction fuel generalizing members pending with
  | zero =>
      have hpending : pending = [] := List.length_eq_zero_iff.mp (by omega)
      subst hpending
      exact ⟨List.Subset.refl _, fun candidate hcandidate =>
        (hvisited candidate hcandidate).resolve_left List.not_mem_nil⟩
  | succ fuel ih =>
      cases pending with
      | nil =>
          exact ⟨List.Subset.refl _, fun candidate hcandidate =>
            (hvisited candidate hcandidate).resolve_left List.not_mem_nil⟩
      | cons candidate pending =>
          rw [expand]
          set grown := adjoinAll members (otherSpellings candidate) with hgrown
          obtain ⟨fresh, hfresh⟩ := prefix_adjoinAll members (otherSpellings candidate)
          rw [← hgrown] at hfresh
          have hdrop : grown.drop members.length = fresh := by
            rw [← hfresh, List.drop_left]
          have hgrownNodup : (members ++ fresh).Nodup :=
            hfresh ▸ nodup_adjoinAll hnodup (otherSpellings candidate)
          have hmem (member : JsString) :
              member ∈ grown ↔ member ∈ members ∨ member ∈ otherSpellings candidate :=
            mem_adjoinAll
          have hsubset : members ⊆ grown := fun member hmember => (hmem member).mpr (.inl hmember)
          -- Each new member is a spelling that was not there before.
          have hspent : fresh.length + (missing allSpellings grown).length ≤
              (missing allSpellings members).length := by
            obtain ⟨_, hfreshNodup, hdisjoint⟩ := List.nodup_append.mp hgrownNodup
            have hout (member : JsString) (hmember : member ∈ fresh) : member ∉ members :=
              fun hmember' => hdisjoint member hmember' member hmember rfl
            rw [← hfresh]
            apply length_missing_append hfreshNodup _ hout
            intro member hmember
            have hin : member ∈ grown := hfresh ▸ List.mem_append_right _ hmember
            exact otherSpellings_subset candidate
              (((hmem member).mp hin).resolve_left (hout member hmember))
          rw [hdrop]
          have hstep := @ih grown (pending ++ fresh) (hfresh ▸ hgrownNodup) (by
            intro member hmember
            rw [← hfresh, List.mem_append] at hmember
            rcases hmember with hmember | hmember
            · rcases hvisited member hmember with hpending | hclosed
              · rcases List.mem_cons.mp hpending with rfl | hpending
                · exact .inr fun spelling hspelling => (hmem spelling).mpr (.inr hspelling)
                · exact .inl (List.mem_append_left _ hpending)
              · exact .inr fun spelling hspelling => hsubset (hclosed hspelling)
            · exact .inl (List.mem_append_right _ hmember)) (by
            rw [List.length_append]
            rw [List.length_cons] at hfuel
            omega)
          exact ⟨fun member hmember => hstep.1 (hsubset hmember), hstep.2⟩

theorem nodup_inflectedForms (term : JsString) : (inflectedForms term).Nodup :=
  nodup_adjoinAll (nodup_distinct _) _

theorem candidates_spec (term : JsString) :
    inflectedForms term ⊆ matchingTokenCandidates term ∧
      ∀ candidate ∈ matchingTokenCandidates term,
        otherSpellings candidate ⊆ matchingTokenCandidates term :=
  expand_closed (nodup_inflectedForms term) (fun _ hmember => .inl hmember)
    (Nat.add_le_add_left (List.length_filter_le _ _) _)

theorem mem_matchingTokenCandidates (term : JsString) : term ∈ matchingTokenCandidates term :=
  (candidates_spec term).1 (mem_adjoinAll.mpr (.inl (mem_distinct.mpr List.mem_cons_self)))

/-- A text matches a term when one of its tokens is a candidate. -/
theorem matchesLexicalTerm_iff {toLowerCase : JsString → JsString} {text term : JsString} :
    matchesLexicalTerm toLowerCase text term = true ↔
      ∃ candidate ∈ matchingTokenCandidates term,
        candidate ∈ lexicalTokens toLowerCase text := by
  rw [matchesLexicalTerm, List.any_eq_true]
  simp only [List.contains_iff_mem]

/-! ## Synonyms -/

/-- Whole-token candidates for one term, widened by a catalog's lexical synonyms. -/
def synonymCandidates (term : JsString) (synonyms : Option (JsString → List JsString)) :
    List JsString :=
  match synonyms with
  | none => matchingTokenCandidates term
  | some synonyms =>
      adjoinAll (matchingTokenCandidates term) <|
        (matchingTokenCandidates term).flatMap fun candidate =>
          (synonyms candidate).flatMap matchingTokenCandidates

/-- The words a term asks for: itself, and the synonyms of its candidates. -/
def AsksFor (synonyms : Option (JsString → List JsString)) (term word : JsString) : Prop :=
  word = term ∨ ∃ lookup, synonyms = some lookup ∧
    ∃ candidate ∈ matchingTokenCandidates term, word ∈ lookup candidate

theorem mem_synonymCandidates {term candidate : JsString}
    {synonyms : Option (JsString → List JsString)} :
    candidate ∈ synonymCandidates term synonyms ↔
      ∃ word, AsksFor synonyms term word ∧ candidate ∈ matchingTokenCandidates word := by
  cases synonyms with
  | none =>
      constructor
      · intro hcandidate
        exact ⟨term, .inl rfl, hcandidate⟩
      · rintro ⟨word, rfl | ⟨lookup, hlookup, _⟩, hcandidate⟩
        · exact hcandidate
        · exact absurd hlookup nofun
  | some lookup =>
      rw [synonymCandidates, mem_adjoinAll, List.mem_flatMap]
      constructor
      · rintro (hcandidate | ⟨own, hown, hcandidate⟩)
        · exact ⟨term, .inl rfl, hcandidate⟩
        · obtain ⟨word, hword, hcandidate⟩ := List.mem_flatMap.mp hcandidate
          exact ⟨word, .inr ⟨lookup, rfl, own, hown, hword⟩, hcandidate⟩
      · rintro ⟨word, rfl | ⟨_, hlookup, own, hown, hword⟩, hcandidate⟩
        · exact .inl hcandidate
        · obtain rfl := Option.some.inj hlookup
          exact .inr ⟨own, hown, List.mem_flatMap.mpr ⟨word, hword, hcandidate⟩⟩

theorem asksFor_none {term word : JsString} : AsksFor none term word ↔ word = term :=
  or_iff_left fun ⟨_, hlookup, _⟩ => absurd hlookup nofun

end Connecta.Catalog
