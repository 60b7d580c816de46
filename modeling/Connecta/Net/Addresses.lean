import Mathlib.Tactic.Ring
import Connecta.Runtime.Decimal
import Connecta.Runtime.Json

/-!
# Internet addresses

An address as its bits, the networks it is in, and the text a URL's host is
serialized to: four decimal octets, or eight hexadecimal pieces of which the first
of the longest runs of zeros is left out.
-/

namespace Connecta.Net

open Connecta.Runtime
open Connecta.Runtime.JsString (ofAscii decimal)

/-- An address that shares its leading bits with a network. -/
def InNetwork {width : ℕ} (network : BitVec width) (bits : ℕ) (address : BitVec width) : Prop :=
  address.toNat / 2 ^ (width - bits) = network.toNat / 2 ^ (width - bits)

instance {width : ℕ} (network : BitVec width) (bits : ℕ) (address : BitVec width) :
    Decidable (InNetwork network bits address) :=
  inferInstanceAs (Decidable (_ = _))

/-! ## IPv4 -/

/-- `a.b.c.d` -/
def ipv4 (a b c d : ℕ) : BitVec 32 := BitVec.ofNat 32 (((a * 256 + b) * 256 + c) * 256 + d)

def octets (address : BitVec 32) : List ℕ :=
  [address.toNat / 2 ^ 24, address.toNat / 2 ^ 16 % 256, address.toNat / 2 ^ 8 % 256,
    address.toNat % 256]

def ipv4Text (address : BitVec 32) : JsString :=
  List.intercalate [ascii '.'] ((octets address).map decimal)

/-! ## IPv6 -/

def pieces (address : BitVec 128) : List ℕ :=
  [address.toNat / 2 ^ 112, address.toNat / 2 ^ 96 % 2 ^ 16, address.toNat / 2 ^ 80 % 2 ^ 16,
    address.toNat / 2 ^ 64 % 2 ^ 16, address.toNat / 2 ^ 48 % 2 ^ 16,
    address.toNat / 2 ^ 32 % 2 ^ 16, address.toNat / 2 ^ 16 % 2 ^ 16, address.toNat % 2 ^ 16]

/-- The shortest lower-case hexadecimal number. -/
def hexText (value : ℕ) : JsString :=
  (Nat.toDigits 16 value).map fun digit => UInt16.ofNat digit.toNat

/-- How many pieces from a position on are zero. -/
def zerosFrom (pieces : List ℕ) (start : ℕ) : ℕ :=
  ((pieces.drop start).takeWhile (· = 0)).length

/-- Where the first of the longest runs of zeros starts, if it is longer than one. -/
def compressed (pieces : List ℕ) : Option ℕ :=
  (List.range pieces.length).find? fun start =>
    2 ≤ zerosFrom pieces start &&
      (List.range pieces.length).all fun other => zerosFrom pieces other ≤ zerosFrom pieces start

def piecesText (pieces : List ℕ) : JsString :=
  List.intercalate [ascii ':'] (pieces.map hexText)

def ipv6Text (address : BitVec 128) : JsString :=
  match compressed (pieces address) with
  | none => piecesText (pieces address)
  | some start =>
      piecesText ((pieces address).take start) ++ ofAscii "::" ++
        piecesText ((pieces address).drop (start + zerosFrom (pieces address) start))

theorem toNat_lt_pieces (address : BitVec 128) : ∀ piece ∈ pieces address, piece < 2 ^ 16 := by
  have hlt := address.isLt
  intro piece hpiece
  simp only [pieces, List.mem_cons, List.not_mem_nil, or_false] at hpiece
  rcases hpiece with rfl | rfl | rfl | rfl | rfl | rfl | rfl | rfl <;> omega

theorem length_pieces (address : BitVec 128) : (pieces address).length = 8 := rfl

/-- The run of zeros between what stands before and behind it. -/
theorem take_zeros_drop (pieces : List ℕ) (start : ℕ) :
    pieces.take start ++ (List.replicate (zerosFrom pieces start) 0 ++
      pieces.drop (start + zerosFrom pieces start)) = pieces := by
  have hzeros : (pieces.drop start).takeWhile (· = 0) =
      List.replicate (zerosFrom pieces start) 0 := by
    apply List.eq_replicate_of_mem
    intro piece hpiece
    have hzero := List.mem_takeWhile_imp hpiece
    exact of_decide_eq_true hzero
  have hrest : pieces.drop (start + zerosFrom pieces start) =
      (pieces.drop start).dropWhile (· = 0) := by
    rw [← List.drop_drop]
    conv_lhs => rw [← List.takeWhile_append_dropWhile (p := (· = 0)) (l := pieces.drop start)]
    exact List.drop_left
  rw [← hzeros, hrest, List.takeWhile_append_dropWhile, List.take_append_drop]

/-! ## Public addresses -/

/-- The networks whose addresses are no global destination. -/
def specialIpv4 : List (BitVec 32 × ℕ) :=
  [(ipv4 127 0 0 0, 8), (ipv4 0 0 0 0, 8), (ipv4 10 0 0 0, 8), (ipv4 172 16 0 0, 12),
    (ipv4 192 168 0 0, 16), (ipv4 169 254 0 0, 16), (ipv4 100 64 0 0, 10),
    (ipv4 192 0 0 0, 24), (ipv4 192 0 2 0, 24), (ipv4 192 88 99 0, 24),
    (ipv4 198 18 0 0, 15), (ipv4 198 51 100 0, 24), (ipv4 203 0 113 0, 24),
    (ipv4 224 0 0 0, 3)]

def PublicIpv4 (address : BitVec 32) : Prop :=
  ∀ network ∈ specialIpv4, ¬ InNetwork network.1 network.2 address

/-- The address of eight pieces. -/
def ipv6 (pieces : List ℕ) : BitVec 128 :=
  BitVec.ofNat 128 (pieces.foldl (fun value piece => value * 2 ^ 16 + piece) 0)

/-- The thirty-two bits of an address above some of its bits. -/
def embedded (address : BitVec 128) (below : ℕ) : BitVec 32 :=
  BitVec.ofNat 32 (address.toNat / 2 ^ below)

/-- IPv4-mapped, compatible, translated, and `64:ff9b::/96`. -/
def carriers : List (BitVec 128) :=
  [ipv6 [0, 0, 0, 0, 0, 0xFFFF, 0, 0], ipv6 [0, 0, 0, 0, 0, 0, 0, 0],
    ipv6 [0, 0, 0, 0, 0xFFFF, 0, 0, 0], ipv6 [0x64, 0xFF9B, 0, 0, 0, 0, 0, 0]]

/-- `2000::/3` outside `2001::/23`, `2001:db8::/32` and `3fff::/20`; of `2002::/16` only
where it embeds a public address. -/
def GlobalUnicast (address : BitVec 128) : Prop :=
  InNetwork (ipv6 [0x2000, 0, 0, 0, 0, 0, 0, 0]) 3 address ∧
    ¬ InNetwork (ipv6 [0x2001, 0, 0, 0, 0, 0, 0, 0]) 23 address ∧
    ¬ InNetwork (ipv6 [0x2001, 0xDB8, 0, 0, 0, 0, 0, 0]) 32 address ∧
    ¬ InNetwork (ipv6 [0x3FFF, 0, 0, 0, 0, 0, 0, 0]) 20 address ∧
    (InNetwork (ipv6 [0x2002, 0, 0, 0, 0, 0, 0, 0]) 16 address →
      PublicIpv4 (embedded address 80))

def PublicIpv6 (address : BitVec 128) : Prop :=
  GlobalUnicast address ∨
    ∃ carrier ∈ carriers, InNetwork carrier 96 address ∧ PublicIpv4 (embedded address 0)

/-- A network whose other bits are zero holds the addresses of a range. -/
theorem inNetwork_iff {width : ℕ} {network : BitVec width} {bits : ℕ}
    (hzeros : network.toNat % 2 ^ (width - bits) = 0) (address : BitVec width) :
    InNetwork network bits address ↔
      network.toNat ≤ address.toNat ∧ address.toNat < network.toNat + 2 ^ (width - bits) := by
  have hpos : 0 < 2 ^ (width - bits) := Nat.two_pow_pos _
  rw [InNetwork]
  generalize 2 ^ (width - bits) = size at hzeros hpos
  have hnetwork := Nat.div_add_mod network.toNat size
  rw [hzeros, Nat.add_zero, mul_comm] at hnetwork
  rw [Nat.div_eq_iff hpos, hnetwork]
  omega

theorem exists_ipv4 (address : BitVec 32) :
    ∃ a b c d, a < 256 ∧ b < 256 ∧ c < 256 ∧ d < 256 ∧ address = ipv4 a b c d := by
  have hlt := address.isLt
  refine ⟨address.toNat / 2 ^ 24, address.toNat / 2 ^ 16 % 256, address.toNat / 2 ^ 8 % 256,
    address.toNat % 256, by omega, by omega, by omega, by omega, ?_⟩
  apply BitVec.eq_of_toNat_eq
  rw [ipv4, BitVec.toNat_ofNat]
  omega

section Octets

variable {a b c d : ℕ} (ha : a < 256) (hb : b < 256) (hc : c < 256) (hd : d < 256)

include ha hb hc hd

theorem toNat_ipv4 : (ipv4 a b c d).toNat = ((a * 256 + b) * 256 + c) * 256 + d := by
  rw [ipv4, BitVec.toNat_ofNat]
  omega

theorem octets_ipv4 : octets (ipv4 a b c d) = [a, b, c, d] := by
  have hfirst : (((a * 256 + b) * 256 + c) * 256 + d) / 2 ^ 24 = a := by omega
  have hsecond : (((a * 256 + b) * 256 + c) * 256 + d) / 2 ^ 16 % 256 = b := by omega
  have hthird : (((a * 256 + b) * 256 + c) * 256 + d) / 2 ^ 8 % 256 = c := by omega
  have hfourth : (((a * 256 + b) * 256 + c) * 256 + d) % 256 = d := by omega
  rw [octets, toNat_ipv4 ha hb hc hd, hfirst, hsecond, hthird, hfourth]

theorem inNetwork_ipv4 {network : BitVec 32} {bits : ℕ} (low size : ℕ)
    (hlow : network.toNat = low) (hsize : 2 ^ (32 - bits) = size) (hzeros : low % size = 0) :
    InNetwork network bits (ipv4 a b c d) ↔
      low ≤ ((a * 256 + b) * 256 + c) * 256 + d ∧
        ((a * 256 + b) * 256 + c) * 256 + d < low + size := by
  rw [← hlow, ← hsize] at hzeros
  rw [inNetwork_iff hzeros, toNat_ipv4 ha hb hc hd, hlow, hsize]

theorem publicIpv4_iff : PublicIpv4 (ipv4 a b c d) ↔
    ¬ a = 127 ∧ ¬ (a = 0 ∨ a = 10 ∨ (a = 172 ∧ 16 ≤ b ∧ b ≤ 31) ∨ (a = 192 ∧ b = 168) ∨
      (a = 169 ∧ b = 254) ∨ (a = 100 ∧ 64 ≤ b ∧ b ≤ 127) ∨
      (a = 192 ∧ b = 0 ∧ (c = 0 ∨ c = 2)) ∨ (a = 192 ∧ b = 88 ∧ c = 99) ∨
      (a = 198 ∧ (b = 18 ∨ b = 19)) ∨ (a = 198 ∧ b = 51 ∧ c = 100) ∨
      (a = 203 ∧ b = 0 ∧ c = 113) ∨ 224 ≤ a) := by
  have hnetwork {network : BitVec 32} {bits : ℕ} := @inNetwork_ipv4 a b c d ha hb hc hd network bits
  have h0 : InNetwork (ipv4 0 0 0 0) 8 (ipv4 a b c d) ↔ a = 0 :=
    (hnetwork 0 0x1000000 rfl rfl rfl).trans (by omega)
  have h10 : InNetwork (ipv4 10 0 0 0) 8 (ipv4 a b c d) ↔ a = 10 :=
    (hnetwork 0xA000000 0x1000000 rfl rfl rfl).trans (by omega)
  have h127 : InNetwork (ipv4 127 0 0 0) 8 (ipv4 a b c d) ↔ a = 127 :=
    (hnetwork 0x7F000000 0x1000000 rfl rfl rfl).trans (by omega)
  have h172 : InNetwork (ipv4 172 16 0 0) 12 (ipv4 a b c d) ↔ a = 172 ∧ 16 ≤ b ∧ b ≤ 31 :=
    (hnetwork 0xAC100000 0x100000 rfl rfl rfl).trans (by omega)
  have h192168 : InNetwork (ipv4 192 168 0 0) 16 (ipv4 a b c d) ↔ a = 192 ∧ b = 168 :=
    (hnetwork 0xC0A80000 0x10000 rfl rfl rfl).trans (by omega)
  have h169 : InNetwork (ipv4 169 254 0 0) 16 (ipv4 a b c d) ↔ a = 169 ∧ b = 254 :=
    (hnetwork 0xA9FE0000 0x10000 rfl rfl rfl).trans (by omega)
  have h100 : InNetwork (ipv4 100 64 0 0) 10 (ipv4 a b c d) ↔ a = 100 ∧ 64 ≤ b ∧ b ≤ 127 :=
    (hnetwork 0x64400000 0x400000 rfl rfl rfl).trans (by omega)
  have h1920 : InNetwork (ipv4 192 0 0 0) 24 (ipv4 a b c d) ↔ a = 192 ∧ b = 0 ∧ c = 0 :=
    (hnetwork 0xC0000000 0x100 rfl rfl rfl).trans (by omega)
  have h1922 : InNetwork (ipv4 192 0 2 0) 24 (ipv4 a b c d) ↔ a = 192 ∧ b = 0 ∧ c = 2 :=
    (hnetwork 0xC0000200 0x100 rfl rfl rfl).trans (by omega)
  have h19288 : InNetwork (ipv4 192 88 99 0) 24 (ipv4 a b c d) ↔ a = 192 ∧ b = 88 ∧ c = 99 :=
    (hnetwork 0xC0586300 0x100 rfl rfl rfl).trans (by omega)
  have h19818 : InNetwork (ipv4 198 18 0 0) 15 (ipv4 a b c d) ↔ a = 198 ∧ (b = 18 ∨ b = 19) :=
    (hnetwork 0xC6120000 0x20000 rfl rfl rfl).trans (by omega)
  have h19851 : InNetwork (ipv4 198 51 100 0) 24 (ipv4 a b c d) ↔ a = 198 ∧ b = 51 ∧ c = 100 :=
    (hnetwork 0xC6336400 0x100 rfl rfl rfl).trans (by omega)
  have h203 : InNetwork (ipv4 203 0 113 0) 24 (ipv4 a b c d) ↔ a = 203 ∧ b = 0 ∧ c = 113 :=
    (hnetwork 0xCB007100 0x100 rfl rfl rfl).trans (by omega)
  have h224 : InNetwork (ipv4 224 0 0 0) 3 (ipv4 a b c d) ↔ 224 ≤ a :=
    (hnetwork 0xE0000000 0x20000000 rfl rfl rfl).trans (by omega)
  simp only [PublicIpv4, specialIpv4, List.forall_mem_cons, List.not_mem_nil, false_imp_iff,
    implies_true, and_true, h0, h10, h127, h172, h192168, h169, h100, h1920, h1922, h19288,
    h19818, h19851, h203, h224, and_or_left, or_assoc, not_or, and_assoc]

end Octets

theorem exists_ipv6 (address : BitVec 128) :
    ∃ p0 p1 p2 p3 p4 p5 p6 p7, (∀ piece ∈ [p0, p1, p2, p3, p4, p5, p6, p7], piece < 2 ^ 16) ∧
      address = ipv6 [p0, p1, p2, p3, p4, p5, p6, p7] := by
  have hlt := address.isLt
  refine ⟨address.toNat / 2 ^ 112, address.toNat / 2 ^ 96 % 2 ^ 16,
    address.toNat / 2 ^ 80 % 2 ^ 16, address.toNat / 2 ^ 64 % 2 ^ 16,
    address.toNat / 2 ^ 48 % 2 ^ 16, address.toNat / 2 ^ 32 % 2 ^ 16,
    address.toNat / 2 ^ 16 % 2 ^ 16, address.toNat % 2 ^ 16, toNat_lt_pieces address, ?_⟩
  apply BitVec.eq_of_toNat_eq
  rw [ipv6, BitVec.toNat_ofNat]
  simp only [List.foldl_cons, List.foldl_nil]
  omega

section Pieces

variable {p0 p1 p2 p3 p4 p5 p6 p7 : ℕ}
  (hpieces : ∀ piece ∈ [p0, p1, p2, p3, p4, p5, p6, p7], piece < 2 ^ 16)

include hpieces

theorem toNat_ipv6 : (ipv6 [p0, p1, p2, p3, p4, p5, p6, p7]).toNat =
    ((((((p0 * 2 ^ 16 + p1) * 2 ^ 16 + p2) * 2 ^ 16 + p3) * 2 ^ 16 + p4) * 2 ^ 16 + p5) * 2 ^ 16 +
      p6) * 2 ^ 16 + p7 := by
  simp only [List.forall_mem_cons] at hpieces
  rw [ipv6, BitVec.toNat_ofNat]
  simp only [List.foldl_cons, List.foldl_nil]
  omega

theorem pieces_ipv6 :
    pieces (ipv6 [p0, p1, p2, p3, p4, p5, p6, p7]) = [p0, p1, p2, p3, p4, p5, p6, p7] := by
  rw [pieces, toNat_ipv6 hpieces]
  simp only [List.forall_mem_cons] at hpieces
  simp only [List.cons.injEq, and_true]
  refine ⟨?_, ?_, ?_, ?_, ?_, ?_, ?_, ?_⟩ <;> omega

theorem inNetwork_ipv6 {network : BitVec 128} {bits : ℕ} (low size : ℕ)
    (hlow : network.toNat = low) (hsize : 2 ^ (128 - bits) = size) (hzeros : low % size = 0) :
    InNetwork network bits (ipv6 [p0, p1, p2, p3, p4, p5, p6, p7]) ↔
      low ≤ ((((((p0 * 2 ^ 16 + p1) * 2 ^ 16 + p2) * 2 ^ 16 + p3) * 2 ^ 16 + p4) * 2 ^ 16 + p5) *
          2 ^ 16 + p6) * 2 ^ 16 + p7 ∧
        ((((((p0 * 2 ^ 16 + p1) * 2 ^ 16 + p2) * 2 ^ 16 + p3) * 2 ^ 16 + p4) * 2 ^ 16 + p5) *
          2 ^ 16 + p6) * 2 ^ 16 + p7 < low + size := by
  rw [← hlow, ← hsize] at hzeros
  rw [inNetwork_iff hzeros, toNat_ipv6 hpieces, hlow, hsize]

theorem embedded_low : embedded (ipv6 [p0, p1, p2, p3, p4, p5, p6, p7]) 0 =
    ipv4 (p6 / 256) (p6 % 256) (p7 / 256) (p7 % 256) := by
  rw [embedded, toNat_ipv6 hpieces, ipv4]
  simp only [List.forall_mem_cons] at hpieces
  apply BitVec.eq_of_toNat_eq
  rw [BitVec.toNat_ofNat, BitVec.toNat_ofNat]
  omega

theorem embedded_sixToFour : embedded (ipv6 [p0, p1, p2, p3, p4, p5, p6, p7]) 80 =
    ipv4 (p1 / 256) (p1 % 256) (p2 / 256) (p2 % 256) := by
  rw [embedded, toNat_ipv6 hpieces, ipv4]
  simp only [List.forall_mem_cons] at hpieces
  apply BitVec.eq_of_toNat_eq
  rw [BitVec.toNat_ofNat, BitVec.toNat_ofNat]
  omega

theorem inNetwork_mapped : InNetwork (ipv6 [0, 0, 0, 0, 0, 0xFFFF, 0, 0]) 96
    (ipv6 [p0, p1, p2, p3, p4, p5, p6, p7]) ↔
      p0 = 0 ∧ p1 = 0 ∧ p2 = 0 ∧ p3 = 0 ∧ p4 = 0 ∧ p5 = 0xFFFF := by
  rw [inNetwork_ipv6 hpieces (0xFFFF * 2 ^ 32) (2 ^ 32) rfl rfl rfl]
  simp only [List.forall_mem_cons] at hpieces
  omega

theorem publicIpv6_iff : PublicIpv6 (ipv6 [p0, p1, p2, p3, p4, p5, p6, p7]) ↔
    (p0 / 2 ^ 13 = 1 ∧ ¬ (p0 = 0x2001 ∧ p1 < 0x200) ∧ ¬ (p0 = 0x2001 ∧ p1 = 0xDB8) ∧
      ¬ (p0 = 0x3FFF ∧ p1 < 0x1000) ∧
      (p0 = 0x2002 → PublicIpv4 (ipv4 (p1 / 256) (p1 % 256) (p2 / 256) (p2 % 256)))) ∨
    ((p0 = 0 ∧ p1 = 0 ∧ p2 = 0 ∧ p3 = 0 ∧ p4 = 0 ∧ p5 = 0xFFFF ∨
      p0 = 0 ∧ p1 = 0 ∧ p2 = 0 ∧ p3 = 0 ∧ p4 = 0 ∧ p5 = 0 ∨
      p0 = 0 ∧ p1 = 0 ∧ p2 = 0 ∧ p3 = 0 ∧ p4 = 0xFFFF ∧ p5 = 0 ∨
      p0 = 0x64 ∧ p1 = 0xFF9B ∧ p2 = 0 ∧ p3 = 0 ∧ p4 = 0 ∧ p5 = 0) ∧
      PublicIpv4 (ipv4 (p6 / 256) (p6 % 256) (p7 / 256) (p7 % 256))) := by
  have hnetwork {network : BitVec 128} {bits : ℕ} := @inNetwork_ipv6 p0 p1 p2 p3 p4 p5 p6 p7
    hpieces network bits
  have hbound := hpieces
  simp only [List.forall_mem_cons] at hbound
  have hglobal : InNetwork (ipv6 [0x2000, 0, 0, 0, 0, 0, 0, 0]) 3
      (ipv6 [p0, p1, p2, p3, p4, p5, p6, p7]) ↔ p0 / 2 ^ 13 = 1 :=
    (hnetwork (2 ^ 125) (2 ^ 125) rfl rfl rfl).trans (by omega)
  have hprotocol : InNetwork (ipv6 [0x2001, 0, 0, 0, 0, 0, 0, 0]) 23
      (ipv6 [p0, p1, p2, p3, p4, p5, p6, p7]) ↔ p0 = 0x2001 ∧ p1 < 0x200 :=
    (hnetwork (0x2001 * 2 ^ 112) (2 ^ 105) rfl rfl rfl).trans (by omega)
  have hdocument : InNetwork (ipv6 [0x2001, 0xDB8, 0, 0, 0, 0, 0, 0]) 32
      (ipv6 [p0, p1, p2, p3, p4, p5, p6, p7]) ↔ p0 = 0x2001 ∧ p1 = 0xDB8 :=
    (hnetwork (0x20010DB8 * 2 ^ 96) (2 ^ 96) rfl rfl rfl).trans (by omega)
  have hexample : InNetwork (ipv6 [0x3FFF, 0, 0, 0, 0, 0, 0, 0]) 20
      (ipv6 [p0, p1, p2, p3, p4, p5, p6, p7]) ↔ p0 = 0x3FFF ∧ p1 < 0x1000 :=
    (hnetwork (0x3FFF * 2 ^ 112) (2 ^ 108) rfl rfl rfl).trans (by omega)
  have hsixToFour : InNetwork (ipv6 [0x2002, 0, 0, 0, 0, 0, 0, 0]) 16
      (ipv6 [p0, p1, p2, p3, p4, p5, p6, p7]) ↔ p0 = 0x2002 :=
    (hnetwork (0x2002 * 2 ^ 112) (2 ^ 112) rfl rfl rfl).trans (by omega)
  have hcompatible : InNetwork (ipv6 [0, 0, 0, 0, 0, 0, 0, 0]) 96
      (ipv6 [p0, p1, p2, p3, p4, p5, p6, p7]) ↔
        p0 = 0 ∧ p1 = 0 ∧ p2 = 0 ∧ p3 = 0 ∧ p4 = 0 ∧ p5 = 0 :=
    (hnetwork 0 (2 ^ 32) rfl rfl rfl).trans (by omega)
  have htranslated : InNetwork (ipv6 [0, 0, 0, 0, 0xFFFF, 0, 0, 0]) 96
      (ipv6 [p0, p1, p2, p3, p4, p5, p6, p7]) ↔
        p0 = 0 ∧ p1 = 0 ∧ p2 = 0 ∧ p3 = 0 ∧ p4 = 0xFFFF ∧ p5 = 0 :=
    (hnetwork (0xFFFF * 2 ^ 48) (2 ^ 32) rfl rfl rfl).trans (by omega)
  have hwellKnown : InNetwork (ipv6 [0x64, 0xFF9B, 0, 0, 0, 0, 0, 0]) 96
      (ipv6 [p0, p1, p2, p3, p4, p5, p6, p7]) ↔
        p0 = 0x64 ∧ p1 = 0xFF9B ∧ p2 = 0 ∧ p3 = 0 ∧ p4 = 0 ∧ p5 = 0 :=
    (hnetwork (0x64FF9B * 2 ^ 96) (2 ^ 32) rfl rfl rfl).trans (by omega)
  rw [PublicIpv6, GlobalUnicast, embedded_low hpieces, embedded_sixToFour hpieces, hglobal,
    hprotocol, hdocument, hexample, hsixToFour]
  simp only [carriers, List.mem_cons, List.not_mem_nil, or_false, or_and_right, exists_or,
    exists_eq_left, inNetwork_mapped hpieces, hcompatible, htranslated, hwellKnown]

end Pieces

/-! ## Hexadecimal numbers -/

/-- The value of hexadecimal digits. -/
def hexNumber (text : JsString) : ℕ :=
  text.foldl (fun value unit => value * 16 + (hexValue unit).getD 0) 0

def lowerHexDigit (unit : CodeUnit) : Bool :=
  Json.digit unit || (ascii 'a' ≤ unit && unit ≤ ascii 'f')

theorem hexText_of_lt {value : ℕ} (hvalue : value < 16) :
    hexText value = [UInt16.ofNat (Nat.digitChar value).toNat] := by
  rw [hexText, Nat.toDigits_of_lt_base hvalue]
  rfl

theorem hexText_of_le {value : ℕ} (hvalue : 16 ≤ value) :
    hexText value = hexText (value / 16) ++ hexText (value % 16) := by
  rw [hexText, Nat.toDigits_of_base_le (by decide) hvalue, List.map_append,
    hexText_of_lt (Nat.mod_lt value (by decide))]
  rfl

theorem hexNumber_append (first second : JsString) :
    hexNumber (first ++ second) = hexNumber first * 16 ^ second.length + hexNumber second := by
  have hstart : ∀ (text : JsString) (start : ℕ),
      text.foldl (fun value unit => value * 16 + (hexValue unit).getD 0) start =
        start * 16 ^ text.length + hexNumber text := by
    intro text
    induction text with
    | nil =>
        intro start
        rw [hexNumber, List.foldl_nil, List.foldl_nil, List.length_nil, pow_zero, mul_one, add_zero]
    | cons unit rest ih =>
        intro start
        rw [hexNumber, List.foldl_cons, List.foldl_cons, ih, ih, List.length_cons, pow_succ]
        ring
  rw [hexNumber, List.foldl_append, hstart]
  rfl

theorem digitChar_hex : ∀ value < 16,
    lowerHexDigit (UInt16.ofNat (Nat.digitChar value).toNat) = true ∧
      hexValue (UInt16.ofNat (Nat.digitChar value).toNat) = some value := by
  decide

theorem hexNumber_hexText (value : ℕ) : hexNumber (hexText value) = value := by
  induction value using Nat.strong_induction_on with
  | _ value ih =>
      rcases lt_or_ge value 16 with hsmall | hlarge
      · rw [hexText_of_lt hsmall, hexNumber, List.foldl_cons, List.foldl_nil,
          (digitChar_hex value hsmall).2]
        exact (Nat.zero_add _)
      · have hlast := hexText_of_lt (Nat.mod_lt value (by decide : 0 < 16))
        rw [hexText_of_le hlarge, hexNumber_append, ih (value / 16) (by omega),
          ih (value % 16) (by omega), hlast, List.length_singleton, pow_one]
        omega

theorem lowerHex_hexText (value : ℕ) : ∀ unit ∈ hexText value, lowerHexDigit unit = true := by
  induction value using Nat.strong_induction_on with
  | _ value ih =>
      intro unit hunit
      rcases lt_or_ge value 16 with hsmall | hlarge
      · rw [hexText_of_lt hsmall] at hunit
        rw [List.mem_singleton.mp hunit]
        exact (digitChar_hex value hsmall).1
      · rw [hexText_of_le hlarge] at hunit
        rcases List.mem_append.mp hunit with hmem | hmem
        · exact ih (value / 16) (by omega) unit hmem
        · exact ih (value % 16) (by omega) unit hmem

theorem hexText_ne_nil (value : ℕ) : hexText value ≠ [] := by
  rw [hexText, ne_eq, List.map_eq_nil_iff]
  exact Nat.toDigits_ne_nil

theorem length_hexText {value : ℕ} (hvalue : value < 2 ^ 16) : (hexText value).length ≤ 4 := by
  rw [hexText, List.length_map]
  exact (Nat.length_toDigits_le_iff (by decide) (by decide)).mpr hvalue

end Connecta.Net
