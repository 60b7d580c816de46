import Connecta.Results.ExactValues

/-!
# What a rows view states

The body of a rows view is the result with whole rows left off the end of one
list, and the accessor of its program reads that list, whatever its keys are.
-/

namespace Connecta.Results

open Connecta.Runtime

open ParsedValue (get define Ordered Exact)

/-! ## Member expressions -/

/-- A property that is read; only records have any here. -/
def readMember : ParsedValue → JsString → Option ParsedValue
  | .object members, key => get members key
  | _, _ => none

/-- The value at a path of keys. -/
def valueAt (root : ParsedValue) (path : List JsString) : Option ParsedValue :=
  path.foldlM readMember root

/-- `1e-9007199254740992` -/
def plain : NumberParts := ⟨false, .ofAscii "1", [], .ofAscii "-9007199254740992"⟩

/-- `1e-9007199254740993` -/
def finer : NumberParts := ⟨false, .ofAscii "1", [], .ofAscii "-9007199254740993"⟩

end Connecta.Results
