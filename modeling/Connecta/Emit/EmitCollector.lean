import Connecta.Emit.NativeMeasures

/-!
# Collecting what a program emits

A collector takes blocks within three budgets, all blocks of a call or none of them.
-/

namespace Connecta.Emit

open Connecta.Runtime
open Connecta.Runtime.JsString (ofAscii)
open Connecta.Results (ParsedValue decimal)
open Connecta.Secrets (base64Bytes)

/-- What a refused call throws: a failure for the guest, or a `TypeError`. -/
inductive Refusal where
  | guestFailure (code message : JsString)
  | typeError
  deriving DecidableEq

/-! ## A block from the guest -/

def EMIT_SHAPE_HINT : JsString :=
  ofAscii ("\x7b type: \"text\", text \x7d or \x7b type: \"image\" | \"audio\", data (base64), " ++
    "mimeType \x7d")

/-- `keys.map((key) => JSON.stringify(key)).join(", ")` and its like -/
def joinComma (texts : List JsString) : JsString := (ofAscii ", ").intercalate texts

/-- `` `${JSON.stringify(value)}` ``, of a member that may be absent. -/
def shown : Option ParsedValue → JsString
  | some value => value.stringify
  | none => ofAscii "undefined"

def base64Alphabet (unit : CodeUnit) : Bool :=
  (ascii 'A' ≤ unit && unit ≤ ascii 'Z') || (ascii 'a' ≤ unit && unit ≤ ascii 'z') ||
    (ascii '0' ≤ unit && unit ≤ ascii '9') || unit = ascii '+' || unit = ascii '/'

/-- `/^(?:[A-Za-z0-9+/]{4})*(?:[A-Za-z0-9+/]{2}==|[A-Za-z0-9+/]{3}=)?$/` -/
def completeQuads : JsString → Bool
  | [] => true
  | first :: second :: third :: fourth :: rest =>
      base64Alphabet first && base64Alphabet second &&
        (base64Alphabet third && base64Alphabet fourth && completeQuads rest ||
          rest.isEmpty && (third = ascii '=' || base64Alphabet third) && fourth = ascii '=')
  | _ => false

/-- `data.slice(-4)` -/
def lastQuad (data : JsString) : JsString := data.drop (data.length - 4)

/-- The image data that is kept: `btoa(atob(data.slice(-4)))` is `data.slice(-4)`. -/
def strictBase64 (data : JsString) : Bool :=
  !data.isEmpty && completeQuads data &&
    (Results.atob (lastQuad data)).map base64Bytes = some (lastQuad data)

example : strictBase64 (ofAscii "QQ==") = true := by decide +kernel

example : strictBase64 (ofAscii "QR==") = false := by decide +kernel

def imageTypes : List JsString :=
  [ofAscii "image/png", ofAscii "image/jpeg", ofAscii "image/gif", ofAscii "image/webp"]

/-- The fields of a block of this type. -/
def blockFields (type : Option ParsedValue) : Option (List JsString) :=
  match type with
  | some (.string name) =>
      if name = ofAscii "text" then some [ofAscii "type", ofAscii "text"]
      else if name = ofAscii "image" ∨ name = ofAscii "audio" then
        some [ofAscii "type", ofAscii "data", ofAscii "mimeType"]
      else none
  | _ => none

def invalidArgs (message : JsString) : Refusal := .guestFailure (ofAscii "invalid_args") message

/-- The text of a field that is one. -/
def textOf : Option ParsedValue → Option JsString
  | some (.string text) => some text
  | _ => none

/-- What is wrong with an image block. -/
def imageFault (members : List (JsString × ParsedValue)) : Option JsString :=
  let mimeType := (textOf (ParsedValue.get members (ofAscii "mimeType"))).getD []
  let data := (textOf (ParsedValue.get members (ofAscii "data"))).getD []
  if mimeType ∉ imageTypes then
    some (ofAscii
      "connecta.emit image mimeType must be image/png, image/jpeg, image/gif, or image/webp.")
  else if strictBase64 data = false then
    some (ofAscii
      "connecta.emit image data must be nonempty, strict base64 with canonical padding.")
  else none

/-- What is wrong with a block that has these members. -/
def blockFault (members : List (JsString × ParsedValue)) : Option JsString :=
  let type := ParsedValue.get members (ofAscii "type")
  match blockFields type with
  | none => some (ofAscii
      "connecta.emit supports content types \"text\", \"image\", and \"audio\"; got " ++
        shown type)
  | some fields =>
      match fields.find? fun field => textOf (ParsedValue.get members field) = none with
      | some field => some (ofAscii "connecta.emit block field \"" ++ field ++
          ofAscii "\" must be a string: " ++ EMIT_SHAPE_HINT)
      | none =>
          let extra := (members.map Prod.fst).filter fun key => !fields.contains key
          let name := (textOf type).getD []
          if extra ≠ [] then
            some (ofAscii "connecta.emit block carries unsupported field(s) " ++
              joinComma (extra.map Json.quote) ++ ofAscii "; a \"" ++ name ++
              ofAscii "\" block is exactly \x7b " ++ joinComma fields ++ ofAscii " \x7d")
          else if name = ofAscii "image" then imageFault members
          else none

/-- `requireEmittedBlock(raw)`; no value is `undefined`. -/
def requireEmittedBlock : Option ParsedValue → Except Refusal ParsedValue
  | some (.object members) =>
      match blockFault members with
      | some message => .error (invalidArgs message)
      | none => .ok (.object members)
  | _ => .error (invalidArgs (ofAscii "connecta.emit accepts exactly one content block: " ++
      EMIT_SHAPE_HINT))

/-! ## The collector -/

structure EmitCollector where
  blocks : List ParsedValue
  bytes : ℕ
  textChars : ℕ
  maxBytes : ℕ
  maxBlocks : ℕ
  maxResultChars : ℕ
  /-- `diagnostics.emitted`: how many blocks of how many bytes. -/
  emitted : Option (ℕ × ℕ)

/-- `new EmitCollector(maxBytes, maxBlocks, diagnostics, maxResultChars)` -/
def EmitCollector.new (maxBytes maxBlocks maxResultChars : ℕ) : EmitCollector :=
  ⟨[], 0, 0, maxBytes, maxBlocks, maxResultChars, none⟩

/-- `number.toLocaleString("en-US")` -/
def grouped (number : ℕ) : JsString :=
  let digits := decimal number
  let head := digits.length % 3
  (ofAscii ",").intercalate <|
    (if head = 0 then [] else [digits.take head]) ++ (digits.drop head).toChunks 3

/-- The three counts of the loop. -/
structure Counts where
  bytes : ℕ
  textChars : ℕ
  count : ℕ

/-- A property of a block: `TypeError` of `null`, absent of what is no object. -/
def property (block : ParsedValue) (name : JsString) : Except Refusal (Option ParsedValue) :=
  match block with
  | .null => .error .typeError
  | .object members => .ok (ParsedValue.get members name)
  | _ => .ok none

/-- `"text" in block.resource` -/
def embedsText (block : ParsedValue) : Except Refusal Bool := do
  match ← property block (ofAscii "resource") with
  | some (.object members) => return (ParsedValue.get members (ofAscii "text")).isSome
  | some (.array _) => return false
  | _ => throw .typeError

/-- The characters of a block that share the limit of the result: of a text, and of a
resource that embeds one. -/
def sharedChars (block : ParsedValue) : Except Refusal ℕ := do
  let type := textOf (← property block (ofAscii "type"))
  let own := if type = some (ofAscii "text") then block.stringify.length else 0
  let embedded ← if type = some (ofAscii "resource") then embedsText block else pure false
  return own + if embedded then block.stringify.length else 0

/-- The size of a block as the budgets count it. -/
def serializedSize (block : ParsedValue) : ℕ := JsString.bytes block.stringify

/-- One round of the loop.  The source subtracts `512` from the limit of the text, and may
then compare with a number below zero. -/
def countBlock (collector : EmitCollector) (counts : Counts) (block : ParsedValue) :
    Except Refusal Counts :=
  let size := serializedSize block
  let remaining := decimal (collector.maxBytes - counts.bytes)
  if collector.maxBlocks ≤ counts.count then
    .error (.guestFailure (ofAscii "budget_exceeded")
      (ofAscii "connecta.emit block-count budget exceeded: " ++ decimal collector.maxBlocks ++
        ofAscii " block(s) maximum, 0 blocks remaining; " ++ remaining ++ ofAscii " of " ++
        decimal collector.maxBytes ++ ofAscii " serialized bytes remaining"))
  else if collector.maxBytes < counts.bytes + size then
    .error (.guestFailure (ofAscii "budget_exceeded")
      (ofAscii "connecta.emit byte budget exceeded: block is " ++ decimal size ++
        ofAscii " serialized bytes with " ++ remaining ++ ofAscii " of " ++
        decimal collector.maxBytes ++ ofAscii " remaining"))
  else do
    let textChars := counts.textChars + (← sharedChars block)
    if collector.maxResultChars < textChars + 512 then
      .error (.guestFailure (ofAscii "result_too_large")
        (ofAscii "Emitted text shares the " ++ grouped collector.maxResultChars ++
          ofAscii "-character program result limit. Reduce the text before emitting it."))
    else return ⟨counts.bytes + size, textChars, counts.count + 1⟩

/-- A method of the collector: what it throws leaves the state it has written. -/
abbrev Emission := ExceptT Refusal (StateM EmitCollector)

def Emission.ofExcept {Answer : Type} (result : Except Refusal Answer) : Emission Answer :=
  ExceptT.mk (pure result)

def acceptNative (blocks : List ParsedValue) : Emission Unit := do
  let collector ← get
  let counts ← .ofExcept <| blocks.foldlM (countBlock collector)
    ⟨collector.bytes, collector.textChars, collector.blocks.length⟩
  modify fun collector => { collector with textChars := counts.textChars }
  modify fun collector => { collector with bytes := counts.bytes }
  modify fun collector => { collector with blocks := collector.blocks ++ blocks }
  modify fun collector =>
    if 0 < collector.blocks.length then
      { collector with emitted := some (collector.blocks.length, collector.bytes) }
    else collector

def accept (raw : Option ParsedValue) : Emission Unit := do
  acceptNative [← .ofExcept (requireEmittedBlock raw)]

/-! ## Calls -/

inductive EmitCall where
  | accept (raw : Option ParsedValue)
  | acceptNative (blocks : List ParsedValue)

namespace EmitCall

def method : EmitCall → Emission Unit
  | accept raw => Emit.accept raw
  | acceptNative blocks => Emit.acceptNative blocks

/-- The blocks of a call. -/
def blocks : EmitCall → List ParsedValue
  | accept raw => raw.toList
  | acceptNative blocks => blocks

end EmitCall

namespace EmitCollector

/-- What a call answers, and the collector behind it. -/
def call (collector : EmitCollector) (call : EmitCall) : Except Refusal Unit × EmitCollector :=
  StateT.run (ExceptT.run call.method) collector

/-- The collector behind calls. -/
def after (collector : EmitCollector) (calls : List EmitCall) : EmitCollector :=
  calls.foldl (fun collector call => (collector.call call).2) collector

/-- The collector with accepted blocks. -/
def extended (collector : EmitCollector) (blocks : List ParsedValue) (counts : Counts) :
    EmitCollector :=
  { collector with
    blocks := collector.blocks ++ blocks
    bytes := counts.bytes
    textChars := counts.textChars
    emitted := if 0 < (collector.blocks ++ blocks).length then
      some ((collector.blocks ++ blocks).length, counts.bytes) else collector.emitted }

def counts (collector : EmitCollector) : Counts :=
  ⟨collector.bytes, collector.textChars, collector.blocks.length⟩

/-- Blocks, bytes and text within what they may be, and the bytes those of the blocks. -/
structure Within (maxBytes maxBlocks maxResultChars : ℕ) (collector : EmitCollector) : Prop where
  limits : collector.maxBytes = maxBytes ∧ collector.maxBlocks = maxBlocks ∧
    collector.maxResultChars = maxResultChars
  blocks : collector.blocks.length ≤ maxBlocks
  bytes : collector.bytes ≤ maxBytes
  textChars : collector.textChars = 0 ∨ collector.textChars + 512 ≤ maxResultChars
  sum : collector.bytes = (collector.blocks.map serializedSize).sum

end EmitCollector

section Budgets

variable {collector : EmitCollector} {counts counts' : Counts} {block : ParsedValue}
  {blocks : List ParsedValue}

/-- A block that is counted is in each budget. -/
theorem countBlock_counts (hcounted : countBlock collector counts block = .ok counts') :
    (counts'.count = counts.count + 1 ∧ counts'.bytes = counts.bytes + serializedSize block) ∧
      counts'.count ≤ collector.maxBlocks ∧ counts'.bytes ≤ collector.maxBytes ∧
      counts'.textChars + 512 ≤ collector.maxResultChars := by
  rw [countBlock] at hcounted
  dsimp only at hcounted
  split_ifs at hcounted with hcount hbytes
  cases hshared : sharedChars block with
  | error refusal =>
      rw [hshared] at hcounted
      exact absurd hcounted nofun
  | ok chars =>
      rw [hshared] at hcounted
      dsimp only [bind, Except.bind] at hcounted
      split_ifs at hcounted with htext
      obtain rfl := Except.ok.inj hcounted
      exact ⟨⟨rfl, rfl⟩, Nat.lt_of_not_le hcount, Nat.le_of_not_lt hbytes,
        Nat.le_of_not_lt htext⟩

/-- Blocks that are counted add up, and are in the budgets if there are any. -/
theorem countBlocks_counts (hcounted : blocks.foldlM (countBlock collector) counts = .ok counts') :
    (counts'.count = counts.count + blocks.length ∧
      counts'.bytes = counts.bytes + (blocks.map serializedSize).sum) ∧
      (counts' = counts ∨ counts'.count ≤ collector.maxBlocks ∧
        counts'.bytes ≤ collector.maxBytes ∧
        counts'.textChars + 512 ≤ collector.maxResultChars) := by
  induction blocks generalizing counts with
  | nil =>
      obtain rfl := Except.ok.inj hcounted
      exact ⟨⟨rfl, rfl⟩, .inl rfl⟩
  | cons block rest ih =>
      rw [List.foldlM_cons] at hcounted
      cases hblock : countBlock collector counts block with
      | error refusal =>
          rw [hblock] at hcounted
          exact absurd hcounted nofun
      | ok counted =>
          rw [hblock] at hcounted
          obtain ⟨⟨hcount, hbytes⟩, hbudgets⟩ := countBlock_counts hblock
          obtain ⟨⟨hcounts, hsum⟩, hwithin⟩ := ih hcounted
          refine ⟨⟨?_, ?_⟩, .inr ?_⟩
          · rw [hcounts, hcount, List.length_cons]
            omega
          · rw [hsum, hbytes, List.map_cons, List.sum_cons, Nat.add_assoc]
          · rcases hwithin with rfl | hwithin
            · exact hbudgets
            · exact hwithin

end Budgets

namespace EmitCollector

variable {collector : EmitCollector}

/-- Nothing is written before all blocks are counted. -/
theorem call_acceptNative (blocks : List ParsedValue) :
    collector.call (.acceptNative blocks) =
      match blocks.foldlM (countBlock collector) collector.counts with
      | .ok counts => (.ok (), collector.extended blocks counts)
      | .error refusal => (.error refusal, collector) := by
  have hrun : collector.call (.acceptNative blocks) = StateT.run (ExceptT.run do
      let counts ← Emission.ofExcept
        (blocks.foldlM (countBlock collector) collector.counts)
      modify fun collector => { collector with textChars := counts.textChars }
      modify fun collector => { collector with bytes := counts.bytes }
      modify fun collector => { collector with blocks := collector.blocks ++ blocks }
      modify fun collector =>
        if 0 < collector.blocks.length then
          { collector with emitted := some (collector.blocks.length, collector.bytes) }
        else collector) collector := rfl
  rw [hrun]
  cases blocks.foldlM (countBlock collector) collector.counts with
  | error refusal => rfl
  | ok counts =>
      refine Prod.ext rfl ?_
      change _ = collector.extended blocks counts
      rw [extended]
      split_ifs with hblocks
      · exact if_pos hblocks
      · exact if_neg hblocks

theorem call_accept (raw : Option ParsedValue) :
    collector.call (.accept raw) =
      match requireEmittedBlock raw with
      | .ok block => collector.call (.acceptNative [block])
      | .error refusal => (.error refusal, collector) := by
  have hrun : collector.call (.accept raw) = StateT.run (ExceptT.run do
      let block ← Emission.ofExcept (requireEmittedBlock raw)
      Emit.acceptNative [block]) collector := rfl
  rw [hrun]
  cases requireEmittedBlock raw with
  | error refusal => rfl
  | ok block => rfl

theorem requireEmittedBlock_raw {raw : Option ParsedValue} {block : ParsedValue}
    (hblock : requireEmittedBlock raw = .ok block) : raw = some block := by
  cases raw with
  | none => exact absurd hblock nofun
  | some value =>
      cases value with
      | object members =>
          rw [requireEmittedBlock] at hblock
          cases hfault : blockFault members with
          | some message =>
              rw [hfault] at hblock
              exact absurd hblock nofun
          | none =>
              rw [hfault] at hblock
              exact congrArg some (Except.ok.inj hblock)
      | _ => exact absurd hblock nofun

/-- A call counts all of its blocks and keeps them, or is refused and changes nothing. -/
theorem call_cases (collector : EmitCollector) (call : EmitCall) :
    (∃ counts, call.blocks.foldlM (countBlock collector) collector.counts = .ok counts ∧
      collector.call call = (.ok (), collector.extended call.blocks counts)) ∨
    ∃ refusal, collector.call call = (.error refusal, collector) := by
  have hnative (blocks : List ParsedValue) :
      (∃ counts, blocks.foldlM (countBlock collector) collector.counts = .ok counts ∧
        collector.call (.acceptNative blocks) = (.ok (), collector.extended blocks counts)) ∨
      ∃ refusal, collector.call (.acceptNative blocks) = (.error refusal, collector) := by
    rw [call_acceptNative]
    cases blocks.foldlM (countBlock collector) collector.counts with
    | ok counts => exact .inl ⟨counts, rfl, rfl⟩
    | error refusal => exact .inr ⟨refusal, rfl⟩
  cases call with
  | acceptNative blocks => exact hnative blocks
  | accept raw =>
      rw [call_accept]
      cases hblock : requireEmittedBlock raw with
      | error refusal => exact .inr ⟨refusal, rfl⟩
      | ok block =>
          obtain rfl := requireEmittedBlock_raw hblock
          exact hnative [block]

section Runs

variable {maxBytes maxBlocks maxResultChars : ℕ}

theorem Within.call (hwithin : Within maxBytes maxBlocks maxResultChars collector)
    (call : EmitCall) : Within maxBytes maxBlocks maxResultChars (collector.call call).2 := by
  obtain ⟨⟨rfl, rfl, rfl⟩, hblocks, hbytes, htext, hsum⟩ := hwithin
  rcases call_cases collector call with ⟨counts, hcounted, hcall⟩ | ⟨refusal, hcall⟩
  · obtain ⟨⟨hcount, hadded⟩, hbudgets⟩ := countBlocks_counts hcounted
    have hlength : (collector.blocks ++ call.blocks).length = counts.count := by
      rw [hcount, List.length_append]
      rfl
    rw [hcall]
    refine ⟨⟨rfl, rfl, rfl⟩, ?_, ?_, ?_, ?_⟩
    · change (collector.blocks ++ call.blocks).length ≤ collector.maxBlocks
      rw [hlength]
      rcases hbudgets with rfl | hbudgets
      · exact hblocks
      · exact hbudgets.1
    · rcases hbudgets with rfl | hbudgets
      · exact hbytes
      · exact hbudgets.2.1
    · rcases hbudgets with rfl | hbudgets
      · exact htext
      · exact .inr hbudgets.2.2
    · change counts.bytes = ((collector.blocks ++ call.blocks).map serializedSize).sum
      rw [hadded, List.map_append, List.sum_append, ← hsum]
      rfl
  · rw [hcall]
    exact ⟨⟨rfl, rfl, rfl⟩, hblocks, hbytes, htext, hsum⟩

theorem Within.after (hwithin : Within maxBytes maxBlocks maxResultChars collector)
    (calls : List EmitCall) :
    Within maxBytes maxBlocks maxResultChars (collector.after calls) := by
  induction calls generalizing collector with
  | nil => exact hwithin
  | cons call rest ih => exact ih (hwithin.call call)

theorem within_new (maxBytes maxBlocks maxResultChars : ℕ) :
    Within maxBytes maxBlocks maxResultChars (.new maxBytes maxBlocks maxResultChars) :=
  ⟨⟨rfl, rfl, rfl⟩, Nat.zero_le _, Nat.zero_le _, .inl rfl, rfl⟩

end Runs

end EmitCollector

/-- A native value is measured exactly, and blocks are collected all or none of them. -/
theorem native_presentation :
    (∀ {size : ℕ} (heap : Heap size) (value : JsValue size) (maxBytes : ℕ) (copy : Bool),
      (∀ copied bytes, boundedNativeValue maxBytes heap value copy = some (copied, bytes) →
        ∃ json, jsonStringify heap value = .text json ∧ bytes = json.bytes ∧ bytes ≤ maxBytes ∧
          (copy = true → copied.shared = [] ∧ copied.json = some json)) ∧
      (boundedNativeValue maxBytes heap value copy = none ↔
        Faulty heap ∅ value ∨ ∃ json, jsonStringify heap value = .text json ∧
          (maxBytes < json.bytes ∨ maxNodes maxBytes < nodes json ∨ 64 < depth json))) ∧
    ∀ (maxBytes maxBlocks maxResultChars : ℕ) (calls : List EmitCall) (call : EmitCall),
      let collector := (EmitCollector.new maxBytes maxBlocks maxResultChars).after calls
      (collector.blocks.length ≤ maxBlocks ∧ collector.bytes ≤ maxBytes ∧
        (collector.textChars = 0 ∨ collector.textChars + 512 ≤ maxResultChars)) ∧
      collector.bytes = (collector.blocks.map serializedSize).sum ∧
      (((collector.call call).1 = .ok () ∧
          (collector.call call).2.blocks = collector.blocks ++ call.blocks) ∨
        ∃ refusal, (collector.call call).1 = .error refusal ∧
          (collector.call call).2 = collector) := by
  constructor
  · intro size heap value maxBytes copy
    have hlarge (json : Json) : ¬ Measurable maxBytes json ↔
        maxBytes < json.bytes ∨ maxNodes maxBytes < nodes json ∨ 64 < depth json := by
      rw [Measurable, not_and_or, not_and_or, Nat.not_le, Nat.not_le, Nat.not_le]
    rcases text_or_faulty heap value with ⟨json, htext⟩ | hfaulty
    · obtain ⟨hmeasured, hrefused⟩ :=
        @boundedNativeValue_of_text size heap value maxBytes copy json htext
      have hstringify := jsonStringify_of_text htext
      have hsound : ¬ Faulty heap ∅ value := by
        intro hfaulty
        rw [Text, plain_of_faulty hfaulty] at htext
        exact absurd htext (by simp)
      by_cases hsmall : Measurable maxBytes json
      · obtain ⟨copied, hvalue, hcopied⟩ := hmeasured hsmall
        rw [hvalue]
        constructor
        · intro copied' bytes hreturned
          obtain ⟨rfl, rfl⟩ := Prod.mk.inj (Option.some.inj hreturned)
          exact ⟨json, hstringify, rfl, hsmall.1, fun hcopy =>
            ⟨Copied.shared_eq_nil copied (hcopied hcopy), hcopied hcopy⟩⟩
        · refine ⟨by simp, fun hrefusal => ?_⟩
          rcases hrefusal with hfaulty | ⟨json', hsame, hover⟩
          · exact absurd hfaulty hsound
          · rw [hstringify] at hsame
            obtain rfl := Serialized.text.inj hsame
            exact absurd hsmall ((hlarge json).mpr hover)
      · rw [hrefused hsmall]
        exact ⟨by simp, fun _ => .inr ⟨json, hstringify, (hlarge json).mp hsmall⟩, fun _ => rfl⟩
    · rw [boundedNativeValue_of_faulty hfaulty]
      exact ⟨by simp, fun _ => .inl hfaulty, fun _ => rfl⟩
  · intro maxBytes maxBlocks maxResultChars calls call
    have hwithin := (EmitCollector.within_new maxBytes maxBlocks maxResultChars).after calls
    dsimp only
    refine ⟨⟨hwithin.blocks, hwithin.bytes, hwithin.textChars⟩, hwithin.sum, ?_⟩
    rcases EmitCollector.call_cases _ call with ⟨counts, -, hcall⟩ | ⟨refusal, hcall⟩
    · rw [hcall]
      exact .inl ⟨rfl, rfl⟩
    · rw [hcall]
      exact .inr ⟨refusal, rfl, rfl⟩

end Connecta.Emit
