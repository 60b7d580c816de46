import Connecta.Net.Addresses
import Connecta.Results.Paging

/-!
# Learned URLs

What a downstream names as a further URL is fetched only where its host is public by
its syntax, or where the operator configured its origin.  The URL parser has folded
every spelling of a host; reading it is a parameter.
-/

namespace Connecta.Net

open Connecta.Runtime
open Connecta.Runtime.JsString (ofAscii)
open Connecta.Results (ofDecimal)

/-- `loopback`, `private`, `public` -/
inductive HostClass where
  | loopback
  | privateHost
  | publicHost
  deriving DecidableEq

def classifyIpv4 (octets : List ℕ) : HostClass :=
  let a := octets.getD 0 0
  let b := octets.getD 1 0
  let c := octets.getD 2 0
  if a = 127 then .loopback
  else if a = 0 ∨ a = 10 ∨ (a = 172 ∧ 16 ≤ b ∧ b ≤ 31) ∨ (a = 192 ∧ b = 168) ∨
      (a = 169 ∧ b = 254) ∨ (a = 100 ∧ 64 ≤ b ∧ b ≤ 127) ∨
      (a = 192 ∧ b = 0 ∧ (c = 0 ∨ c = 2)) ∨ (a = 192 ∧ b = 88 ∧ c = 99) ∨
      (a = 198 ∧ (b = 18 ∨ b = 19)) ∨ (a = 198 ∧ b = 51 ∧ c = 100) ∨
      (a = 203 ∧ b = 0 ∧ c = 113) ∨ 224 ≤ a then .privateHost
  else .publicHost

/-- `/^(\d{1,3})\.(\d{1,3})\.(\d{1,3})\.(\d{1,3})$/`, its groups as numbers. -/
def ipv4Octets (host : JsString) : Option (List ℕ) :=
  let groups := host.splitOn (ascii '.')
  if groups.length = 4 ∧ groups.all fun group =>
      group ≠ [] && group.length ≤ 3 && group.all Json.digit then
    let octets := groups.map ofDecimal
    if octets.all fun octet => octet ≤ 255 then some octets else none
  else none

/-- `body.split("::")` -/
def splitPairs : JsString → List JsString
  | [] => [[]]
  | first :: rest =>
      if first = ascii ':' then
        match rest with
        | [] => [[first]]
        | second :: after =>
            if second = ascii ':' then [] :: splitPairs after
            else (splitPairs (second :: after)).modifyHead (first :: ·)
      else (splitPairs rest).modifyHead (first :: ·)

/-- `/^[0-9a-f]{1,4}$/` -/
def hextet (piece : JsString) : Bool :=
  piece ≠ [] && piece.length ≤ 4 && piece.all lowerHexDigit

/-- `pieces(part)`: an absent or empty part has none. -/
def partPieces : Option JsString → Option (List ℕ)
  | none | some [] => some []
  | some part => (part.splitOn (ascii ':')).mapM fun piece =>
      if hextet piece then some (hexNumber piece) else none

/-- Eight pieces of a bracketed IPv6 literal. -/
def ipv6Pieces (host : JsString) : Option (List ℕ) :=
  let halves := splitPairs (host.drop 1).dropLast
  if 2 < halves.length then none
  else do
    let head ← partPieces halves[0]?
    let tail ← partPieces halves[1]?
    let missing : ℤ := 8 - head.length - tail.length
    if (if halves.length = 1 then missing ≠ 0 else missing < 0) then none
    else some (head ++ (List.replicate missing.toNat 0 ++ tail))

/-- `v4(high, low)`: the class of the IPv4 address in two pieces. -/
def embeddedClass (high low : ℕ) : HostClass :=
  classifyIpv4 [high >>> 8, high &&& 0xFF, low >>> 8, low &&& 0xFF]

/-- A carrier of an address that is not public is private, also of a loopback one. -/
def carried (high low : ℕ) : HostClass :=
  if embeddedClass high low = .publicHost then .publicHost else .privateHost

def classifyIpv6 (pieces : List ℕ) : HostClass :=
  let p := fun index => pieces.getD index 0
  let zeros := p 0 = 0 ∧ p 1 = 0 ∧ p 2 = 0 ∧ p 3 = 0
  if zeros ∧ p 4 = 0 ∧ p 5 = 0xFFFF then embeddedClass (p 6) (p 7)
  else if zeros ∧ p 4 = 0 ∧ p 5 = 0 then
    if p 6 = 0 ∧ p 7 = 1 then .loopback else carried (p 6) (p 7)
  else if zeros ∧ p 4 = 0xFFFF ∧ p 5 = 0 then carried (p 6) (p 7)
  else if p 0 = 0x64 ∧ p 1 = 0xFF9B ∧ p 2 = 0 ∧ p 3 = 0 ∧ p 4 = 0 ∧ p 5 = 0 then
    carried (p 6) (p 7)
  else if p 0 = 0x2002 then carried (p 1) (p 2)
  else if p 0 &&& 0xE000 ≠ 0x2000 ∨ (p 0 = 0x2001 ∧ (p 1 < 0x200 ∨ p 1 = 0xDB8)) ∨
      (p 0 = 0x3FFF ∧ p 1 < 0x1000) then .privateHost
  else .publicHost

section Hosts

-- `new URL(text).hostname`, absent where the parser fails.
variable (hostnameOf : JsString → Option JsString)

/-- `http://${host}/` -/
def httpUrl (host : JsString) : JsString := ofAscii "http://" ++ (host ++ ofAscii "/")

/-- `/[/\\?#@]/` -/
def delimiter (unit : CodeUnit) : Bool := unit ∈ ofAscii "/\\?#@"

/-- The hostname the parser settles on. -/
def canonicalHost (hostname : JsString) : Option JsString :=
  if hostname.any delimiter then none
  else
    let bracketed :=
      if ascii ':' ∈ hostname ∧ hostname.head? ≠ some (ascii '[') then
        ascii '[' :: (hostname ++ ofAscii "]")
      else hostname
    hostnameOf (httpUrl bracketed)

/-- A name of this host: `localhost` or one in it, with or without a dot at its end. -/
def localName (host : JsString) : Bool :=
  let name := if host.getLast? = some (ascii '.') then host.dropLast else host
  name = ofAscii "localhost" || (ofAscii ".localhost").isSuffixOf name

/-- A host that does not parse is private. -/
def classifyHost (hostname : JsString) : HostClass :=
  match canonicalHost hostnameOf hostname with
  | none | some [] => .privateHost
  | some host =>
      if host.head? = some (ascii '[') then
        match ipv6Pieces host with
        | some pieces => classifyIpv6 pieces
        | none => .privateHost
      else match ipv4Octets host with
      | some octets => classifyIpv4 octets
      | none => if localName host then .loopback else .publicHost

/-- What is read of a parsed URL. -/
structure ParsedUrl where
  protocol : JsString
  origin : JsString
  host : JsString
  hostname : JsString

/-- Why a learned URL must not be fetched, absent where it may. -/
def learnedUrlRefusal (configured target : ParsedUrl) : Option JsString :=
  if target.protocol ≠ ofAscii "https:" ∧ target.protocol ≠ ofAscii "http:" then
    some ((if target.host = [] then ofAscii "the target" else target.host) ++
      (ofAscii " uses " ++ (target.protocol ++ ofAscii ", not HTTPS")))
  else if target.origin = configured.origin then none
  else
    let targetClass := classifyHost hostnameOf target.hostname
    if targetClass = .loopback ∧ classifyHost hostnameOf configured.hostname = .loopback then none
    else if targetClass ≠ .publicHost then
      some (target.host ++ ofAscii " is a private, loopback, or link-local address")
    else if target.protocol ≠ ofAscii "https:" then some (target.host ++ ofAscii " is not HTTPS")
    else none

end Hosts

/-! ## Classes of addresses -/

theorem classifyIpv4_public (address : BitVec 32) :
    classifyIpv4 (octets address) = .publicHost ↔ PublicIpv4 address := by
  obtain ⟨a, b, c, d, ha, hb, hc, hd, rfl⟩ := exists_ipv4 address
  rw [octets_ipv4 ha hb hc hd, publicIpv4_iff ha hb hc hd]
  simp only [classifyIpv4, List.getD_cons_zero, List.getD_cons_succ]
  split_ifs with hloopback hprivate
  · exact iff_of_false nofun fun hpublic => hpublic.1 hloopback
  · exact iff_of_false nofun fun hpublic => hpublic.2 hprivate
  · exact iff_of_true rfl ⟨hloopback, hprivate⟩

theorem classifyIpv4_loopback (address : BitVec 32) :
    classifyIpv4 (octets address) = .loopback ↔ InNetwork (ipv4 127 0 0 0) 8 address := by
  obtain ⟨a, b, c, d, ha, hb, hc, hd, rfl⟩ := exists_ipv4 address
  have hnetwork : InNetwork (ipv4 127 0 0 0) 8 (ipv4 a b c d) ↔ a = 127 :=
    (inNetwork_ipv4 ha hb hc hd 0x7F000000 0x1000000 rfl rfl rfl).trans (by omega)
  rw [octets_ipv4 ha hb hc hd, hnetwork]
  simp only [classifyIpv4, List.getD_cons_zero, List.getD_cons_succ]
  split_ifs with hloopback hprivate
  · exact iff_of_true rfl hloopback
  · exact iff_of_false nofun hloopback
  · exact iff_of_false nofun hloopback

theorem embeddedClass_eq {high low : ℕ} (hhigh : high < 2 ^ 16) (hlow : low < 2 ^ 16) :
    embeddedClass high low =
      classifyIpv4 (octets (ipv4 (high / 256) (high % 256) (low / 256) (low % 256))) := by
  have hmask (piece : ℕ) : piece &&& 0xFF = piece % 256 :=
    Nat.and_two_pow_sub_one_eq_mod piece 8
  rw [embeddedClass, octets_ipv4 (by omega) (by omega) (by omega) (by omega),
    Nat.shiftRight_eq_div_pow, Nat.shiftRight_eq_div_pow, hmask, hmask]

theorem carried_public {high low : ℕ} (hhigh : high < 2 ^ 16) (hlow : low < 2 ^ 16) :
    carried high low = .publicHost ↔
      PublicIpv4 (ipv4 (high / 256) (high % 256) (low / 256) (low % 256)) := by
  rw [← classifyIpv4_public, ← embeddedClass_eq hhigh hlow, carried]
  split_ifs with hpublic
  · exact iff_of_true rfl hpublic
  · exact iff_of_false nofun hpublic

theorem carried_loopback (high low : ℕ) : carried high low ≠ .loopback := by
  rw [carried]
  split_ifs <;> exact nofun

/-- The three leading bits of a piece. -/
theorem leading_bits {piece : ℕ} (hpiece : piece < 2 ^ 16) :
    piece &&& 0xE000 = piece / 2 ^ 13 * 2 ^ 13 := by
  apply Nat.eq_of_testBit_eq
  intro bit
  have hmask : 0xE000 = (2 ^ 3 - 1) * 2 ^ 13 := rfl
  rw [hmask, Nat.testBit_and, Nat.testBit_mul_two_pow, Nat.testBit_mul_two_pow,
    Nat.testBit_two_pow_sub_one, Nat.testBit_div_two_pow]
  rcases lt_or_ge bit 13 with hlow | hhigh
  · rw [decide_eq_false (Nat.not_le.mpr hlow), Bool.false_and, Bool.and_false, Bool.false_and]
  rw [Nat.sub_add_cancel hhigh, decide_eq_true hhigh, Bool.true_and, Bool.true_and]
  rcases lt_or_ge bit 16 with hleading | habove
  · rw [decide_eq_true (by omega), Bool.and_true]
  · have hbound : piece < 2 ^ bit := hpiece.trans_le (Nat.pow_le_pow_right (by decide) habove)
    rw [Nat.testBit_lt_two_pow hbound, Bool.false_and]

theorem classifyIpv6_public (address : BitVec 128) :
    classifyIpv6 (pieces address) = .publicHost ↔ PublicIpv6 address := by
  obtain ⟨p0, p1, p2, p3, p4, p5, p6, p7, hpieces, rfl⟩ := exists_ipv6 address
  rw [pieces_ipv6 hpieces, publicIpv6_iff hpieces]
  simp only [List.forall_mem_cons] at hpieces
  have hlow := @carried_public p6 p7 (by omega) (by omega)
  have hsixToFour := @carried_public p1 p2 (by omega) (by omega)
  have hleading := @leading_bits p0 (by omega)
  simp only [classifyIpv6, List.getD_cons_zero, List.getD_cons_succ, hleading]
  split_ifs with hmapped hcompatible hself htranslated hwellKnown hsix hspecial
  · obtain ⟨⟨rfl, rfl, rfl, rfl⟩, rfl, rfl⟩ := hmapped
    rw [embeddedClass_eq (by omega) (by omega), classifyIpv4_public]
    simp
  · obtain ⟨⟨rfl, rfl, rfl, rfl⟩, rfl, rfl⟩ := hcompatible
    obtain ⟨rfl, rfl⟩ := hself
    have hreserved : ¬ PublicIpv4 (ipv4 0 0 0 1) := by
      rw [publicIpv4_iff (by decide) (by decide) (by decide) (by decide)]
      simp
    simp [hreserved]
  · obtain ⟨⟨rfl, rfl, rfl, rfl⟩, rfl, rfl⟩ := hcompatible
    simp [hlow]
  · obtain ⟨⟨rfl, rfl, rfl, rfl⟩, rfl, rfl⟩ := htranslated
    simp [hlow]
  · obtain ⟨rfl, rfl, rfl, rfl, rfl, rfl⟩ := hwellKnown
    simp [hlow]
  · obtain rfl := hsix
    simp [hsixToFour]
  · refine iff_of_false nofun ?_
    rintro (⟨hglobal, hprotocol, hdocument, hexample, -⟩ | ⟨hcarrier, -⟩)
    · omega
    · omega
  · refine iff_of_true rfl (Or.inl ⟨?_, ?_, ?_, ?_, ?_⟩)
    · omega
    · omega
    · omega
    · omega
    · exact fun hprefix => absurd hprefix hsix

/-- `::1`, or mapped from `127.0.0.0/8`. -/
def LoopbackIpv6 (address : BitVec 128) : Prop :=
  address = ipv6 [0, 0, 0, 0, 0, 0, 0, 1] ∨
    (InNetwork (ipv6 [0, 0, 0, 0, 0, 0xFFFF, 0, 0]) 96 address ∧
      InNetwork (ipv4 127 0 0 0) 8 (embedded address 0))

theorem classifyIpv6_loopback (address : BitVec 128) :
    classifyIpv6 (pieces address) = .loopback ↔ LoopbackIpv6 address := by
  obtain ⟨p0, p1, p2, p3, p4, p5, p6, p7, hpieces, rfl⟩ := exists_ipv6 address
  have hself : ipv6 [p0, p1, p2, p3, p4, p5, p6, p7] = ipv6 [0, 0, 0, 0, 0, 0, 0, 1] ↔
      p0 = 0 ∧ p1 = 0 ∧ p2 = 0 ∧ p3 = 0 ∧ p4 = 0 ∧ p5 = 0 ∧ p6 = 0 ∧ p7 = 1 := by
    constructor
    · intro hsame
      have hread := congrArg pieces hsame
      rw [pieces_ipv6 hpieces, pieces_ipv6 (by decide)] at hread
      simpa only [List.cons.injEq, and_true] using hread
    · rintro ⟨rfl, rfl, rfl, rfl, rfl, rfl, rfl, rfl⟩
      rfl
  rw [LoopbackIpv6, hself, inNetwork_mapped hpieces, embedded_low hpieces, pieces_ipv6 hpieces]
  simp only [List.forall_mem_cons] at hpieces
  have hembedded := @embeddedClass_eq p6 p7 (by omega) (by omega)
  simp only [classifyIpv6, List.getD_cons_zero, List.getD_cons_succ]
  split_ifs with hmapped hcompatible hlast htranslated hwellKnown hsix hspecial
  · obtain ⟨⟨rfl, rfl, rfl, rfl⟩, rfl, rfl⟩ := hmapped
    rw [hembedded, classifyIpv4_loopback]
    simp
  · obtain ⟨⟨rfl, rfl, rfl, rfl⟩, rfl, rfl⟩ := hcompatible
    simp [hlast]
  · obtain ⟨⟨rfl, rfl, rfl, rfl⟩, rfl, rfl⟩ := hcompatible
    simp [hlast, carried_loopback]
  · obtain ⟨⟨rfl, rfl, rfl, rfl⟩, rfl, rfl⟩ := htranslated
    simp [carried_loopback]
  · obtain ⟨rfl, rfl, rfl, rfl, rfl, rfl⟩ := hwellKnown
    simp [carried_loopback]
  · obtain rfl := hsix
    simp [carried_loopback]
  · refine iff_of_false nofun ?_
    omega
  · refine iff_of_false nofun ?_
    omega

end Connecta.Net
