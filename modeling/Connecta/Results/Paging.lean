import Mathlib.Data.Nat.Digits.Lemmas
import Connecta.Results.Base64
import Connecta.Runtime.Boundaries
import Connecta.Runtime.Json

/-!
# Paging a stored result

A result is kept as base64 chunks, the first behind a header, and read a window
of bytes at a time: the quads around the window are decoded, and the edges of the
page are moved to character boundaries.
-/

namespace Connecta.Results

open Connecta.Runtime

/-- A byte that is there and continues a character. -/
def isContinuationByte (byte : Option ℕ) : Bool := continues byte

/-- Back to the boundary at or before an offset. -/
def alignStartToCharBoundary (bytes : List ℕ) : ℕ → ℕ
  | 0 => 0
  | offset + 1 =>
      if isContinuationByte bytes[offset + 1]? then
        alignStartToCharBoundary bytes offset
      else offset + 1

/-- `while (e > offset && isContinuationByte(bytes[e])) e--` -/
def walkBack (bytes : List ℕ) (offset : ℕ) : ℕ → ℕ
  | 0 => 0
  | place + 1 =>
      if offset < place + 1 && isContinuationByte bytes[place + 1]? then
        walkBack bytes offset place
      else place + 1

/-- `while (e < total && isContinuationByte(bytes[e])) e++`, for at most a number
of steps. -/
def walkOn (bytes : List ℕ) (total : ℕ) : ℕ → ℕ → ℕ
  | 0, place => place
  | steps + 1, place =>
      if place < total && isContinuationByte bytes[place]? then
        walkOn bytes total steps (place + 1)
      else place

/-- The end of a page, past its offset. -/
def alignEndToCharBoundary (bytes : List ℕ) (offset last total : ℕ) : ℕ :=
  if total ≤ last then total
  else
    let wanted := max last (offset + 1)
    let place := walkBack bytes offset wanted
    if place = offset then walkOn bytes total (total - wanted) wanted else place

/-! ## What is stored -/

def RESULT_CHUNK_BYTES : ℕ := 49152

def RESULT_MAX_CHUNKS : ℕ := 32

def MIN_MAX_RESULT_BYTES : ℕ := 1

def RESULT_ENVELOPE_V4 : JsString := .ofAscii "connecta-result-v4:"

/-- A multiple of three: `Math.ceil(totalBytes / RESULT_MAX_CHUNKS / 3) * 3`, or
the smallest width. -/
def resultChunkBytes (totalBytes : ℕ) : ℕ :=
  max RESULT_CHUNK_BYTES
    ((totalBytes + (RESULT_MAX_CHUNKS * 3 - 1)) / (RESULT_MAX_CHUNKS * 3) * 3)

def decimalDigit (value : ℕ) : CodeUnit := UInt16.ofNat (0x30 + value)

/-- A whole number in a template literal. -/
def decimal (number : ℕ) : JsString :=
  if number = 0 then [decimalDigit 0]
  else (Nat.digits 10 number).reverse.map decimalDigit

def envelope (binding : JsString) (totalBytes chunkBytes cap : ℕ) : JsString :=
  RESULT_ENVELOPE_V4 ++ binding ++ ascii ':' :: (decimal totalBytes ++
    ascii ':' :: (decimal chunkBytes ++ ascii ':' :: (decimal cap ++ [ascii ':'])))

/-- The base64 of each chunk of bytes. -/
def chunkTexts (bytes : List ℕ) (chunkBytes : ℕ) : List JsString :=
  (List.range ((bytes.length + (chunkBytes - 1)) / chunkBytes)).map fun index =>
    base64Of ((bytes.drop (index * chunkBytes)).take chunkBytes)

/-- The chunks of `stashResult`, the first behind the head. -/
def stashChunks (binding : List (JsString × Json)) (cap : ℕ) (bytes : List ℕ) :
    List JsString :=
  let chunkBytes := resultChunkBytes bytes.length
  let head := envelope (base64Of (Json.stringify (.object binding)).utf8)
    bytes.length chunkBytes cap
  match chunkTexts bytes chunkBytes with
  | [] => [head]
  | first :: rest => (head ++ first) :: rest

/-! ## Reading a page -/

structure ReadArgs where
  page : Option ℕ
  offset : Option ℕ
  maxBytes : Option ℕ

inductive ReadError where
  | invalidMaxBytes
  | pageWithOffset
  | unknownResult
  | undecodable
  deriving DecidableEq

structure ResultPage where
  offset : ℕ
  bytes : ℕ
  totalBytes : ℕ
  hasMore : Bool
  nextOffset : Option ℕ
  text : JsString
  deriving DecidableEq

/-- A read, and the chunks whose keys it asked for. -/
structure Read where
  touched : List ℕ
  answer : Except ReadError ResultPage

structure Header where
  binding : JsString
  total : ℕ
  chunkBytes : ℕ
  cap : ℕ
  first : JsString

def base64Class (unit : CodeUnit) : Bool :=
  alphanumeric unit.toNat || unit = ascii '+' || unit = ascii '/' ||
    unit = ascii '='

def digitClass (unit : CodeUnit) : Bool := 0x30 ≤ unit && unit ≤ 0x39

/-- A group of one or more units of a class, and the colon after it. -/
def readField (unitClass : CodeUnit → Bool) (text : JsString) :
    Option (JsString × JsString) :=
  match text.takeWhile unitClass, text.dropWhile unitClass with
  | [], _ => none
  | _, [] => none
  | field, colon :: rest =>
      if colon = ascii ':' then some (field, rest) else none

/-- `Number(digits)` -/
def ofDecimal (digits : JsString) : ℕ :=
  digits.foldl (fun value unit => value * 10 + (unit.toNat - 0x30)) 0

/-- `RESULT_ENVELOPE_V4_HEADER.exec(stored)`, and what follows the header. -/
def readHeader (stored : JsString) : Option Header := do
  let rest ← if RESULT_ENVELOPE_V4.isPrefixOf stored then
    some (stored.drop RESULT_ENVELOPE_V4.length) else none
  let (binding, rest) ← readField base64Class rest
  let (total, rest) ← readField digitClass rest
  let (chunkBytes, rest) ← readField digitClass rest
  let (cap, rest) ← readField digitClass rest
  return ⟨binding, ofDecimal total, ofDecimal chunkBytes, ofDecimal cap, rest⟩

/-- The offset a read asks for; a page is as wide as a character at least. -/
def requestedOffset (args : ReadArgs) (total maxBytes : ℕ) : ℕ :=
  match args.page with
  | none => args.offset.getD 0
  | some page =>
      let width := max 4 maxBytes
      min total (min page ((total + (width - 1)) / width) * width)

/-- The bytes a read decodes: three before the offset, from a quad on, and four
after the page. -/
structure Window where
  start : ℕ
  last : ℕ

def window (requested total maxBytes : ℕ) : Window where
  start := (min requested total - 3) / 3 * 3
  last := min total (requested + maxBytes + 4)

/-- The chunks a window is in. -/
def Window.chunks (view : Window) (chunkBytes : ℕ) : List ℕ :=
  let first := view.start / chunkBytes
  let lastChunk := max (view.last - 1) view.start / chunkBytes
  List.range' first (lastChunk + 1 - first)

/-- The bytes of one chunk, written where they are in the window. -/
def fillChunk (header : Header) (view : Window) (index : ℕ) (encoded : JsString)
    (buffer : List ℕ) : Option (List ℕ) :=
  let chunkStart := index * header.chunkBytes
  let first := max view.start chunkStart - chunkStart
  let last := min (min view.last (chunkStart + header.chunkBytes)) header.total -
    chunkStart
  (atob ((encoded.drop (first / 3 * 4)).take
    ((last + 2) / 3 * 4 - first / 3 * 4))).map fun binary =>
    (List.range (last - first)).foldl
      (fun buffer place => buffer.set (chunkStart + (first + place) - view.start)
        (binary.getD place 0)) buffer

/-- Each chunk is read and decoded after the other. -/
def readChunks (stored : ℕ → Option JsString) (header : Header) (view : Window) :
    List ℕ → List ℕ → List ℕ × Except ReadError (List ℕ)
  | [], buffer => ([], .ok buffer)
  | index :: rest, buffer =>
      let touched := if index = 0 then [] else [index]
      match if index = 0 then some header.first else stored index with
      | none => (touched, .error .unknownResult)
      | some encoded =>
          match fillChunk header view index encoded buffer with
          | none => (touched, .error .undecodable)
          | some filled =>
              let others := readChunks stored header view rest filled
              (touched ++ others.1, others.2)

/-- The page between two places, decoded from a window's bytes. -/
def pageBetween (total : ℕ) (view : Window) (bytes : List ℕ)
    (offset last : ℕ) : ResultPage :=
  let slice := (bytes.drop (offset - view.start)).take (last - offset)
  { offset := offset
    bytes := last - offset
    totalBytes := total
    hasMore := last < total
    nextOffset := if last < total then some last else none
    text := (Form.decodeLossy none slice).flatMap utf16 }

/-- The page in a window's bytes, between boundaries. -/
def servePage (args : ReadArgs) (requested total maxBytes : ℕ) (view : Window)
    (bytes : List ℕ) : ResultPage :=
  let offset := view.start +
    alignStartToCharBoundary bytes (requested - view.start)
  pageBetween total view bytes offset
    (view.start +
      match args.page with
      | none => alignEndToCharBoundary bytes (offset - view.start)
          (offset - view.start + maxBytes) (total - view.start)
      | some _ => alignStartToCharBoundary bytes
          (min (total - view.start) (requested - view.start + max 4 maxBytes)))

/-- `readResult`, for a caller whose access was checked. -/
def readResult (stored : ℕ → Option JsString) (args : ReadArgs) : Read :=
  if args.maxBytes.any (· < MIN_MAX_RESULT_BYTES) then
    ⟨[], .error .invalidMaxBytes⟩
  else if args.page.isSome && args.offset.isSome then
    ⟨[], .error .pageWithOffset⟩
  else
    match stored 0 with
    | none => ⟨[0], .error .unknownResult⟩
    | some text =>
        match readHeader text with
        | none => ⟨[0], .error .unknownResult⟩
        | some header =>
            if header.cap < MIN_MAX_RESULT_BYTES ∨ 2 ^ 53 ≤ header.total ∨
                2 ^ 53 ≤ header.chunkBytes ∨ header.chunkBytes < 3 ∨
                header.chunkBytes % 3 ≠ 0 then
              ⟨[0], .error .unknownResult⟩
            else
              let maxBytes := min (args.maxBytes.getD header.cap) header.cap
              let requested := requestedOffset args header.total maxBytes
              let view := window requested header.total maxBytes
              let read := readChunks stored header view
                (view.chunks header.chunkBytes)
                (List.replicate (view.last - view.start) 0)
              ⟨0 :: read.1, read.2.map
                (servePage args requested header.total maxBytes view)⟩

end Connecta.Results
