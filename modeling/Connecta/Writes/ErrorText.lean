import Connecta.Runtime.JsonBytes

/-!
# Error texts within a byte budget

`clipText` cuts a text at a byte no link or credential holds.  `fitted` asks for
less until the text fits as a JSON string; each round asks for a smaller budget,
so it ends, and what it answers fits.
-/

namespace Connecta.ErrorText

open Connecta.Runtime

def MAX_TOOL_ERROR_BYTES : ℕ := 4096

/-! ## Clipping -/

def TOKEN_END : List ℕ := [0x09, 0x0A, 0x0D, 0x20, 0x22, 0x3C, 0x3E, 0x60]

def CLIPPED : JsString := 0x2026 :: JsString.ofAscii " [truncated]"

def CLIPPED_BYTES : ℕ := CLIPPED.bytes

/-- `echoDecoder.decode(bytes)`, which drops a byte order mark; the bytes of a cut
are whole characters. -/
def decode (bytes : List ℕ) : JsString :=
  match decodeText bytes with
  | none => []
  | some [] => []
  | some (first :: rest) => if first = 0xFEFF then rest else first :: rest

/-- The loop of `clipText`: back to the nearest token end, or to nothing. -/
def tokenCut (bytes : List ℕ) : ℕ → ℕ
  | 0 => 0
  | last + 1 =>
      if bytes[last + 1]?.any (TOKEN_END.contains ·) then last + 1 else tokenCut bytes last

def clipText (value : JsString) (maxBytes : ℤ) : JsString :=
  let bytes := value.utf8
  if bytes.length ≤ maxBytes then value
  else
    let last := tokenCut bytes (maxBytes - CLIPPED_BYTES).toNat
    (decode (bytes.take last)).trimEnd ++
      (if 0 < last then JsString.ofAscii " " else []) ++ CLIPPED

/-! ## Fitting -/

/-- The loop of `fitted`, absent where `fuel` rounds were not enough. -/
def fittedFrom (text : JsString) (room : ℤ) : ℕ → ℤ → JsString → Option (Option JsString)
  | 0, _, _ => none
  | fuel + 1, budget, clipped =>
      let size := Json.bytes (.string clipped)
      if size ≤ room then some (some clipped)
      else if budget ≤ 0 then some none
      else
        let budget := budget * room / size - 1
        fittedFrom text room fuel budget (clipText text (max 0 budget))

/-- `fitted(text, room)` -/
def fitted (text : JsString) (room : ℤ) : Option JsString :=
  (fittedFrom text room (room.toNat + 1) room (clipText text room)).join

theorem fittedFrom_fits {text clipped message : JsString} {room : ℤ} {fuel : ℕ} {budget : ℤ}
    (hfitted : fittedFrom text room fuel budget clipped = some (some message)) :
    (Json.bytes (.string message) : ℤ) ≤ room := by
  induction fuel generalizing budget clipped with
  | zero => cases hfitted
  | succ fuel ih =>
      rw [fittedFrom] at hfitted
      split_ifs at hfitted with hfits hspent
      · obtain rfl := Option.some.inj (Option.some.inj hfitted)
        exact hfits
      · cases hfitted
      · exact ih hfitted

/-- What `fitted` answers fits. -/
theorem fitted_fits {text message : JsString} {room : ℤ}
    (hfitted : fitted text room = some message) :
    (Json.bytes (.string message) : ℤ) ≤ room := by
  rw [fitted, Option.join_eq_some_iff] at hfitted
  exact fittedFrom_fits hfitted

end Connecta.ErrorText
