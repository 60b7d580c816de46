import Connecta.Runtime.Utf16

/-!
# The QuickJS pipe

What a sandbox child may send, what the parent answers, and the bounds on both.
A child is an adversary, so nothing about its messages is assumed; parsing them
is a parameter.
-/

namespace Connecta.QuickJs

open Connecta.Runtime

def maxExecuteLogChars : ℕ := 4000

def maxQuickJsIpcBytes : ℕ := 1024 * 1024

def maxQuickJsResultBytes : ℕ := 64 * 1024 * 1024

def quickJsResultChunkChars : ℕ := 65536

def maxQuickJsHostRpcBytes : ℕ := 256 * 1024

def serializedBytes (text : JsString) : ℕ := text.utf8.length

/-! ## Cutting text -/

def tokenEnd : List CodeUnit := [0x09, 0x0A, 0x0D, 0x20, 0x22, 0x3C, 0x3E, 0x60]

/-- The loop of `tokenPrefix`: back to the nearest token end, or to nothing. -/
def tokenCut (value : JsString) : ℕ → ℕ
  | 0 => 0
  | last + 1 =>
      if value[last + 1]?.any (tokenEnd.contains ·) then last + 1
      else tokenCut value last

def tokenPrefix (value : JsString) (units : ℕ) : JsString :=
  if value.length ≤ units then value
  else JsString.trimEnd (value.take (tokenCut value units))

theorem tokenCut_le (value : JsString) (units : ℕ) :
    tokenCut value units ≤ units := by
  induction units with
  | zero => exact le_rfl
  | succ last ih =>
      rw [tokenCut]
      split
      · exact le_rfl
      · exact ih.trans (Nat.le_succ last)

theorem length_tokenPrefix_le (value : JsString) (units : ℕ) :
    (tokenPrefix value units).length ≤ units := by
  unfold tokenPrefix
  split
  · assumption
  · calc (JsString.trimEnd (value.take (tokenCut value units))).length
        ≤ (value.take (tokenCut value units)).length :=
          (List.rdropWhile_prefix _ _).length_le
      _ ≤ tokenCut value units := List.length_take_le _ _
      _ ≤ units := tokenCut_le value units

def truncatedMark : JsString :=
  0x2026 :: JsString.ofAscii "[entry truncated]"

/-! ## Messages -/

inductive ChildToParentMessage where
  /-- Anything the intake refuses before it reads a field. -/
  | malformed
  | ready
  | log (jobId : ℕ) (payloadJson : JsString)
  | hostCall (jobId callId : ℕ) (payloadJson : JsString)
  | resultChunk (jobId : ℕ) (payloadJson : JsString)
  | result (jobId : ℕ) (payloadJson : JsString)
  deriving DecidableEq

structure ExecuteResult where
  /-- Everything but the logs, serialized. -/
  value : JsString
  logs : Option (List JsString) := none
  deriving DecidableEq

structure ExecutionPayload where
  outcome : ExecuteResult
  timedOut : Bool := false
  retire : Bool := false
  deriving DecidableEq

/-- What reading a complete result comes to. -/
inductive ParsedExecution where
  /-- `JSON.parse` throws. -/
  | threw
  /-- It parses, but no outcome can be read from the value. -/
  | unreadable
  | payload (payload : ExecutionPayload)

structure HostCallPayload where
  namespaceName : String
  functionName : String
  args : JsString
  deriving DecidableEq

/-- `JSON.parse` and `stringifyBounded` on what a child sent; absent where they
throw or the value is not of the shape the parent goes on to read. -/
structure Codec where
  logEntry : JsString → Option JsString
  execution : JsString → ParsedExecution
  hostCall : JsString → Option HostCallPayload
  envelopeFits : ChildToParentMessage → Bool

/-- What a provider's function settled with, or the error the call failed on. -/
inductive HostResultPayload where
  | value (json : JsString)
  | error (text : String)
  deriving DecidableEq

end Connecta.QuickJs
