import Mathlib
import Connecta.Runtime.Percent

/-!
# The pinned operation index

A REST connector matches a concrete path to one operation of its index before
it sends anything.  A path is split at its slashes and each segment is read
twice, as spelled and once decoded; literal segments outrank parameters.
-/

namespace Connecta.Rest

open Connecta.Runtime

inductive RestMethod where
  | get
  | head
  | post
  | put
  | patch
  | delete
  deriving DecidableEq

structure Operation where
  method : RestMethod
  /-- The path template. -/
  path : JsString
  deriving DecidableEq

/-- Why a path names no operation. -/
inductive PathRefusal where
  | relative
  | queryOrFragment
  | emptySegment
  | placeholder
  | percentEncoding
  | reserved
  | unknown (segments : List JsString)
  | wrongMethod (templates : List JsString) (allowed : List RestMethod)
  | parameters (names : List JsString)
  /-- A `URIError` that no branch catches. -/
  | threw
  deriving DecidableEq

/-- The texts `segmentsOf` refuses with. -/
def PathRefusal.text (title search : String) : PathRefusal → String
  | .relative => s!"A {title} path begins with \"/\" and names one API " ++
      s!"operation, such as one {search} returned."
  | .queryOrFragment => s!"A {title} path carries no query or fragment; " ++
      "put query parameters in query."
  | .emptySegment => s!"A {title} path has no empty segments or trailing slash."
  | .placeholder => s!"The {title} path still contains a \x7bplaceholder\x7d; " ++
      "substitute the real id from an earlier result."
  | .percentEncoding =>
      s!"A {title} path segment is not valid percent-encoding."
  | .reserved => s!"A {title} path segment may not be a dot segment, an " ++
      "encoded separator, or a control character."
  | .unknown _ => s!"{title} has no operation at that path in the pinned API " ++
      "index."
  | .wrongMethod _ _ => s!"{title} accepts other methods at that path."
  | .parameters _ => "Not sent: the path does not match the operation in the " ++
      "pinned API index."
  | .threw => "URI malformed"

def dot : JsString := JsString.ofAscii "."

def dots : JsString := JsString.ofAscii ".."

/-- One round of the loop over the segments; the answer says whether the
segment carries an encoded slash for the match to decide. -/
def checkSegment (slashParams : Bool) (segment : JsString) :
    Except PathRefusal Bool :=
  if segment = [] then .error .emptySegment
  else if segment.any fun unit => unit = 0x7B || unit = 0x7D then
    .error .placeholder
  else match decodeURIComponent segment with
  | none => .error .percentEncoding
  | some decoded =>
      let control := decoded.any fun unit => unit < 0x20 || unit = 0x7F
      let slashed := slashParams && decoded.contains (ascii '/') &&
        (decoded.splitOn (ascii '/')).all fun piece =>
          piece ≠ [] && piece ≠ dot && piece ≠ dots
      if decoded = dot || decoded = dots || decoded.contains 0x5C ||
          (decoded.contains (ascii '/') && !slashed) || control then
        .error .reserved
      else .ok slashed

/-- The segments of a path, and the positions that carry an encoded slash. -/
def segmentsOf (slashParams : Bool) (path : JsString) :
    Except PathRefusal (List JsString × List ℕ) :=
  if path.head? ≠ some (ascii '/') then .error .relative
  else if path.any fun unit => unit = ascii '?' || unit = ascii '#' then
    .error .queryOrFragment
  else do
    let segments := (path.drop 1).splitOn (ascii '/')
    let slashed ← segments.mapM (checkSegment slashParams)
    return (segments, (slashed.zipIdx.filter (·.1)).map (·.2))

/-! ## Matching -/

/-- What `.` does not match. -/
def lineTerminator (unit : CodeUnit) : Bool :=
  unit = 0x0A || unit = 0x0D || unit = 0x2028 || unit = 0x2029

/-- The last parameter embedded in a template part, with what stands before and
after it. -/
def embedded (part : JsString) : Option (JsString × JsString × JsString) :=
  (List.range part.length).reverse.findSome? fun position =>
    match part.drop position with
    | [] => none
    | brace :: rest =>
        let name := rest.takeWhile fun unit => unit ≠ 0x7B && unit ≠ 0x7D
        match rest.drop name.length with
        | [] => none
        | close :: suffix =>
            if brace = 0x7B ∧ close = 0x7D ∧ name ≠ [] ∧
                !(part.take position).any lineTerminator ∧
                !suffix.any lineTerminator then
              some (part.take position, name, suffix)
            else none

/-- `text.slice(before, after ? -after : undefined)` -/
def slice (text : JsString) (before after : ℕ) : JsString :=
  (text.drop before).take (text.length - after - before)

/-- A path template split at its slashes. -/
def templateOf (path : JsString) : List JsString :=
  (path.drop 1).splitOn (ascii '/')

structure OperationIndex where
  operations : List Operation
  slashParams : List JsString := []
  uriTemplates : Bool := false
  /-- The path parameters an operation's row declares, each with what its
  schema accepts. -/
  pathParams : ℕ → List (JsString × (JsString → Bool)) := fun _ => []

/-- A concrete call matched to its operation. -/
structure OperationMatch where
  row : ℕ
  operation : Operation
  params : List (JsString × JsString)
  deriving DecidableEq

namespace OperationIndex

variable (index : OperationIndex)

/-- Twice the score of one segment against one template part. -/
def partScore (part segment : JsString) : Option ℕ :=
  if !index.uriTemplates then
    if part.head? = some 0x7B then some 0
    else if part ≠ segment then none else some 2
  else match decodeURIComponent segment with
  | none => none
  | some value => match embedded part with
    | some (before, _, after) =>
        if !before.isPrefixOf value || !after.isSuffixOf value ||
            value.length ≤ before.length + after.length then none
        else some (if before ≠ [] ∨ after ≠ [] then 1 else 0)
    | none => if part ≠ value then none else some 2

def score (template segments : List JsString) : Option ℕ :=
  if template.length ≠ segments.length then none
  else ((template.zip segments).mapM fun pair =>
    index.partScore pair.1 pair.2).map List.sum

/-- The rows of the most specific templates that fit. -/
def best (segments : List JsString) : List ℕ :=
  (index.operations.zipIdx.foldl (fun (best : Option ℕ × List ℕ) row =>
    match index.score (templateOf row.1.path) segments with
    | none => best
    | some score => match best.1 with
      | none => (some score, [row.2])
      | some highest =>
          if highest < score then (some score, [row.2])
          else if score = highest then (best.1, best.2 ++ [row.2]) else best)
    (none, [])).2

/-- An encoded slash stands only in the last segment, filling a parameter
reviewed for it. -/
def slashAllowed (template : List JsString) (position : ℕ) : Bool :=
  match template[position]? with
  | none => false
  | some part => position + 1 = template.length && part.head? = some 0x7B &&
      index.slashParams.contains (slice part 1 1)

/-- The value of one template part, as the caller spelled it. -/
def param (part segment : JsString) :
    Except PathRefusal (List (JsString × JsString)) :=
  if !index.uriTemplates then
    .ok (if part.head? = some 0x7B then [(slice part 1 1, segment)] else [])
  else match embedded part with
  | none => .ok []
  | some (before, name, after) =>
      if before.isPrefixOf segment && after.isSuffixOf segment then
        .ok [(name, slice segment before.length after.length)]
      else match decodeURIComponent segment with
      | none => .error .threw
      | some value =>
          match encodeURIComponent (slice value before.length after.length) with
          | none => .error .threw
          | some value => .ok [(name, value)]

/-- The declared path parameters whose values their schemas do not accept. -/
def mismatches (row : ℕ) (params : List (JsString × JsString)) :
    Except PathRefusal (List JsString) := do
  let checked ← (index.pathParams row).mapM fun declared =>
    match params.reverse.lookup declared.1 with
    | none => Except.ok []
    | some value => match decodeURIComponent value with
      | none => .error .threw
      | some value => .ok (if declared.2 value then [] else [declared.1])
  return checked.flatten

/-- Match a concrete call to its operation. -/
def resolve (method : RestMethod) (path : JsString) :
    Except PathRefusal OperationMatch := do
  let (segments, slashes) ← segmentsOf (index.slashParams ≠ []) path
  let rows := (index.best segments).filterMap fun row =>
    (index.operations[row]?).map (row, ·)
  if rows = [] then throw (.unknown segments)
  match rows.find? (·.2.method = method) with
  | none => throw (.wrongMethod (rows.map (·.2.path)).dedup
      (rows.map (·.2.method)).dedup)
  | some (row, operation) =>
      let template := templateOf operation.path
      if !slashes.all (index.slashAllowed template) then throw .reserved
      let params ← (template.zip segments).mapM fun pair =>
        index.param pair.1 pair.2
      let issues ← index.mismatches row params.flatten
      if issues ≠ [] then throw (.parameters issues)
      return { row := row, operation := operation, params := params.flatten }

end OperationIndex

/-! ## What an accepted path is made of -/

/-- A segment the index reads: it decodes, and to nothing reserved. -/
structure Accepted (segment : JsString) : Prop where
  nonempty : segment ≠ []
  decodes : ∃ decoded, Decodes segment decoded ∧ decoded ≠ dot ∧
    decoded ≠ dots ∧ (0x5C : CodeUnit) ∉ decoded ∧
    ∀ unit ∈ decoded, ¬ unit < (0x20 : CodeUnit)

theorem accepted_of_checkSegment {slashParams slashed : Bool}
    {segment : JsString}
    (hchecked : checkSegment slashParams segment = .ok slashed) :
    Accepted segment := by
  unfold checkSegment at hchecked
  split at hchecked
  · cases hchecked
  · rename_i hnonempty
    split at hchecked
    · cases hchecked
    · split at hchecked
      · cases hchecked
      · rename_i decoded hdecoded
        dsimp only at hchecked
        split at hchecked
        · cases hchecked
        · rename_i hfree
          simp only [Bool.or_eq_true, not_or, decide_eq_true_eq,
            Bool.not_eq_true] at hfree
          obtain ⟨⟨⟨⟨hdot, hdots⟩, hbackslash⟩, -⟩, hcontrol⟩ := hfree
          refine ⟨hnonempty, decoded, decodeURIComponent_eq_some.mp hdecoded,
            hdot, hdots, ?_, fun unit hunit hlower => ?_⟩
          · simpa using hbackslash
          · rw [List.any_eq_false] at hcontrol
            exact hcontrol unit hunit (by simp [hlower])

theorem accepted_of_mapM {slashParams : Bool} {segments : List JsString}
    {slashed : List Bool}
    (hchecked : segments.mapM (checkSegment slashParams) = .ok slashed) :
    ∀ segment ∈ segments, Accepted segment := by
  induction segments generalizing slashed with
  | nil => simp
  | cons segment rest ih =>
      rw [List.mapM_cons] at hchecked
      cases hfirst : checkSegment slashParams segment with
      | error refusal =>
          rw [hfirst] at hchecked
          cases hchecked
      | ok first =>
          rw [hfirst] at hchecked
          cases hrest : rest.mapM (checkSegment slashParams) with
          | error refusal =>
              rw [hrest] at hchecked
              cases hchecked
          | ok later =>
              intro other hother
              rcases List.mem_cons.mp hother with rfl | hother
              · exact accepted_of_checkSegment hfirst
              · exact ih hrest other hother

/-- The segments of a path an index resolves. -/
def segments (path : JsString) : List JsString :=
  (path.drop 1).splitOn (ascii '/')

theorem accepted_of_resolve {index : OperationIndex} {method : RestMethod}
    {path : JsString} {matched : OperationMatch}
    (hresolve : index.resolve method path = .ok matched) :
    path.head? = some (ascii '/') ∧
      (∀ unit ∈ path, unit ≠ ascii '?' ∧ unit ≠ ascii '#') ∧
      ∀ segment ∈ segments path, Accepted segment := by
  have hsegments : ∃ found, segmentsOf (index.slashParams ≠ []) path =
      .ok found := by
    unfold OperationIndex.resolve at hresolve
    cases hfound : segmentsOf (index.slashParams ≠ []) path with
    | error refusal =>
        rw [hfound] at hresolve
        cases hresolve
    | ok found => exact ⟨found, rfl⟩
  obtain ⟨found, hfound⟩ := hsegments
  unfold segmentsOf at hfound
  split at hfound
  · cases hfound
  · rename_i hrelative
    rw [not_not] at hrelative
    split at hfound
    · cases hfound
    · rename_i hquery
      rw [Bool.not_eq_true, List.any_eq_false] at hquery
      refine ⟨hrelative, fun unit hunit => ?_, ?_⟩
      · have hfree := hquery unit hunit
        simpa using hfree
      · dsimp only at hfound
        cases hchecked : (segments path).mapM
            (checkSegment (decide (index.slashParams ≠ []))) with
        | error refusal =>
            rw [show (path.drop 1).splitOn (ascii '/') = segments path from rfl,
              hchecked] at hfound
            cases hfound
        | ok slashed => exact accepted_of_mapM hchecked

end Connecta.Rest
