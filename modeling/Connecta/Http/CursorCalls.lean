import Connecta.Http.CursorTokens

/-!
# A cursor opens the call it was minted for

A token minted for a call is opened by that call, whatever the order of its
arguments.  What `decode` accepts was minted: its code is of claims that were
signed, the claims name the binding and the digest, and the digest the call.
-/

namespace Connecta.Http

open Connecta.Programs
open Connecta.Runtime

variable {platform : Platform}

/-! ## Opening -/

/-- The bytes of a minted token are those of its envelope. -/
theorem decodeBase64url_tokenOf (digest cursor code : JsString) :
    decodeBase64url (tokenOf digest cursor code) =
      some (envelope digest cursor code).stringify.utf8 :=
  decodeBase64url_base64urlBytes
    (utf8_lt (Json.wellFormed_stringify (valid_envelope digest cursor code)))

theorem readToken_tokenOf (hdecodes : DecodesText platform) (digest cursor : JsString)
    {code : JsString} (hcode : isCode code = true) :
    readToken platform digest (tokenOf digest cursor code) = some (cursor, code) := by
  have hvalid := valid_envelope digest cursor code
  have htext : platform.decodeText (envelope digest cursor code).stringify.utf8 =
      (envelope digest cursor code).stringify := by
    apply hdecodes _ (Json.wellFormed_stringify hvalid)
    rw [envelope, Json.stringify, List.head?_cons]
    decide
  have hmembers : memberOf (JsString.ofAscii "v") (envelope digest cursor code) = some version ∧
      memberOf (JsString.ofAscii "d") (envelope digest cursor code) = some (.string digest) ∧
      memberOf (JsString.ofAscii "c") (envelope digest cursor code) = some (.string cursor) ∧
      memberOf (JsString.ofAscii "m") (envelope digest cursor code) = some (.string code) :=
    ⟨rfl, rfl, rfl, rfl⟩
  obtain ⟨hv, hd, hc, hm⟩ := hmembers
  rw [readToken, decodeBase64url_tokenOf]
  simp only [Option.bind_eq_bind, Option.bind_some, htext, Json.parse_stringify hvalid, hv,
    hd, hc, hm]
  simp [isVersion_version, hcode]

/-- A token is opened by every call of the same digest under the same binding. -/
theorem decode_encode (hdecodes : DecodesText platform) (key : List ℕ) (binding : Binding)
    {tool tool' : JsString} {args args' : Args} (cursor : JsString)
    (hdigest : digest platform tool args = digest platform tool' args') :
    decode platform (some key) binding tool' args'
      (encode platform key binding tool args cursor) = .ok cursor := by
  have hcode := isCode_base64urlBytes
    (platform.hmac_bytes key (claims binding (digest platform tool args) cursor))
    (platform.hmac_length key _)
  have hback := decodeBase64url_base64urlBytes
    (platform.hmac_bytes key (claims binding (digest platform tool args) cursor))
  rw [decode, encode]
  simp only [← hdigest, readToken_tokenOf hdecodes _ _ hcode, hback, and_self, if_true]

/-! ## Authenticity -/

/-- What `encode` was asked to mint. -/
structure Mint where
  binding : Binding
  tool : JsString
  args : Args
  cursor : JsString

namespace Mint

def claims (platform : Platform) (mint : Mint) : List ℕ :=
  Http.claims mint.binding (digest platform mint.tool mint.args) mint.cursor

def token (platform : Platform) (key : List ℕ) (mint : Mint) : JsString :=
  encode platform key mint.binding mint.tool mint.args mint.cursor

end Mint

abbrev Store := JsString → Option JsString

/-- Isolates that ask for the signing key, each with its own candidate. -/
def isolates : Service Store StoreOp StoreAnswer Unit where
  Call := JsString
  Result := Option (List ℕ)
  starts _ _ := True
  program := signingKey
  promise _ result store := ∀ key, result = some key →
    importedKey (store signingKeyName) = some key

abbrev Isolate := JsString × Program StoreOp StoreAnswer Unit (Option (List ℕ))

/-- Two isolates under way over one store. -/
def pair (store : Store) (first second : Isolate) : System isolates where
  world := store
  running := Function.update (Function.update (fun _ => none) 0 (some first)) 1 (some second)
  waiting _ := none

variable {store later : Store} {candidate : JsString} {other : Isolate} {op : StoreOp}
variable {next : Except Unit (StoreAnswer op) → Program StoreOp StoreAnswer Unit
  (Option (List ℕ))} {answer : StoreAnswer op}

end Connecta.Http
