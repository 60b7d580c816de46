import Connecta.Net.UrlSafety

/-!
# Where a learned URL leads

The address in a serialized host is read back from its text, so that the class of a
host is the class of its address.
-/

namespace Connecta.Net

open Connecta.Runtime
open Connecta.Runtime.JsString (ofAscii decimal)
open Connecta.Results (ofDecimal)

/-! ## Texts of addresses -/

theorem colon_notMem_hexText (value : ℕ) : ascii ':' ∉ hexText value := by
  intro hmem
  exact absurd (lowerHex_hexText value _ hmem) (by decide)

theorem piecesText_cons_cons (first second : ℕ) (rest : List ℕ) :
    piecesText (first :: second :: rest) =
      hexText first ++ ascii ':' :: piecesText (second :: rest) := by
  rw [piecesText, List.map_cons, List.map_cons, List.intercalate_cons_cons, List.append_assoc]
  rfl

theorem piecesText_ne_nil (first : ℕ) (rest : List ℕ) : piecesText (first :: rest) ≠ [] := by
  cases rest with
  | nil =>
      rw [piecesText, List.map_cons, List.map_nil, List.intercalate_singleton]
      exact hexText_ne_nil first
  | cons second rest =>
      rw [piecesText_cons_cons]
      exact List.append_ne_nil_of_left_ne_nil (hexText_ne_nil first) _

/-- A text begins with something other than a colon. -/
theorem exists_piecesText_cons (first : ℕ) (rest : List ℕ) :
    ∃ unit text, unit ≠ ascii ':' ∧ piecesText (first :: rest) = unit :: text := by
  have hunits : ∀ text, ∃ unit tail, unit ≠ ascii ':' ∧ hexText first ++ text = unit :: tail := by
    intro text
    obtain ⟨unit, tail, hcons⟩ := List.exists_cons_of_ne_nil (hexText_ne_nil first)
    refine ⟨unit, tail ++ text, fun hcolon => colon_notMem_hexText first ?_, ?_⟩
    · rw [hcons, ← hcolon]
      exact List.mem_cons_self
    · rw [hcons, List.cons_append]
  cases rest with
  | nil =>
      rw [piecesText, List.map_cons, List.map_nil, List.intercalate_singleton,
        ← List.append_nil (hexText first)]
      exact hunits []
  | cons second rest =>
      rw [piecesText_cons_cons]
      exact hunits _

theorem splitPairs_of_ne {first : CodeUnit} (hfirst : first ≠ ascii ':') (rest : JsString) :
    splitPairs (first :: rest) = (splitPairs rest).modifyHead (first :: ·) := by
  rw [splitPairs.eq_def]
  exact if_neg hfirst

theorem splitPairs_colon {second : CodeUnit} (hsecond : second ≠ ascii ':') (after : JsString) :
    splitPairs (ascii ':' :: second :: after) =
      (splitPairs (second :: after)).modifyHead (ascii ':' :: ·) := by
  rw [splitPairs.eq_def]
  exact (if_pos rfl).trans (if_neg hsecond)

theorem splitPairs_append {text : JsString} (hfree : ascii ':' ∉ text) (rest : JsString) :
    splitPairs (text ++ rest) = (splitPairs rest).modifyHead (text ++ ·) := by
  induction text with
  | nil => exact (congrFun List.modifyHead_id _).symm
  | cons unit text ih =>
      have hunit : unit ≠ ascii ':' := fun hcolon => hfree (hcolon ▸ List.mem_cons_self)
      rw [List.cons_append, splitPairs_of_ne hunit,
        ih fun hmem => hfree (List.mem_cons_of_mem unit hmem), List.modifyHead_modifyHead]
      rfl

/-- Pieces are separated by single colons. -/
theorem splitPairs_piecesText (pieces : List ℕ) (rest : JsString) :
    splitPairs (piecesText pieces ++ rest) =
      (splitPairs rest).modifyHead (piecesText pieces ++ ·) := by
  induction pieces with
  | nil => exact (congrFun List.modifyHead_id _).symm
  | cons first tail ih =>
      cases tail with
      | nil =>
          rw [piecesText, List.map_cons, List.map_nil, List.intercalate_singleton]
          exact splitPairs_append (colon_notMem_hexText first) rest
      | cons second tail =>
          obtain ⟨unit, text, hunit, hcons⟩ := exists_piecesText_cons second tail
          rw [hcons] at ih
          rw [piecesText_cons_cons, List.append_assoc, hcons, List.cons_append, List.cons_append,
            splitPairs_append (colon_notMem_hexText first), splitPairs_colon hunit,
            ← List.cons_append, ih, List.modifyHead_modifyHead, List.modifyHead_modifyHead]
          apply congrArg (fun change => List.modifyHead change (splitPairs rest))
          funext suffix
          rw [Function.comp_apply, Function.comp_apply, List.append_assoc]
          rfl

theorem hextet_hexText {value : ℕ} (hvalue : value < 2 ^ 16) : hextet (hexText value) = true := by
  rw [hextet, Bool.and_eq_true, Bool.and_eq_true, decide_eq_true_eq, decide_eq_true_eq,
    List.all_eq_true]
  exact ⟨⟨hexText_ne_nil value, length_hexText hvalue⟩, lowerHex_hexText value⟩

theorem partPieces_piecesText {pieces : List ℕ} (hpieces : ∀ piece ∈ pieces, piece < 2 ^ 16) :
    partPieces (some (piecesText pieces)) = some pieces := by
  cases pieces with
  | nil => rfl
  | cons first rest =>
      have hpart : partPieces (some (piecesText (first :: rest))) =
          ((piecesText (first :: rest)).splitOn (ascii ':')).mapM fun piece =>
            if hextet piece then some (hexNumber piece) else none := by
        obtain ⟨unit, text, hcons⟩ := List.exists_cons_of_ne_nil (piecesText_ne_nil first rest)
        rw [hcons]
        rfl
      have hsplit : (piecesText (first :: rest)).splitOn (ascii ':') =
          (first :: rest).map hexText := by
        apply List.splitOn_intercalate
        · intro text htext
          obtain ⟨piece, -, rfl⟩ := List.mem_map.mp htext
          exact colon_notMem_hexText piece
        · exact List.cons_ne_nil _ _
      rw [hpart, hsplit]
      clear hpart hsplit
      generalize first :: rest = pieces at hpieces
      induction pieces with
      | nil => rfl
      | cons piece pieces ih =>
          rw [List.forall_mem_cons] at hpieces
          rw [List.map_cons, List.mapM_cons, ih hpieces.2, if_pos (hextet_hexText hpieces.1),
            hexNumber_hexText]
          rfl

/-- `[text]` -/
def bracketed (text : JsString) : JsString := ascii '[' :: (text ++ ofAscii "]")

theorem zerosFrom_le (pieces : List ℕ) (start : ℕ) :
    zerosFrom pieces start ≤ pieces.length - start := by
  rw [zerosFrom, ← List.length_drop]
  exact (List.takeWhile_sublist _).length_le

theorem ipv6Pieces_of_halves {text : JsString} {halves : List JsString} {head tail : List ℕ}
    (hhalves : splitPairs text = halves) (hcount : halves.length ≤ 2)
    (hhead : partPieces halves[0]? = some head) (htail : partPieces halves[1]? = some tail)
    (hone : halves.length = 1 → head.length + tail.length = 8)
    (hlength : head.length + tail.length ≤ 8) :
    ipv6Pieces (bracketed text) =
      some (head ++ (List.replicate (8 - head.length - tail.length) 0 ++ tail)) := by
  have hbody : ((bracketed text).drop 1).dropLast = text := by
    rw [bracketed, List.drop_one, List.tail_cons]
    exact List.dropLast_concat
  have hmissing : ((8 : ℤ) - head.length - tail.length).toNat =
      8 - head.length - tail.length := by omega
  have hwide : ¬ (if halves.length = 1 then (8 : ℤ) - head.length - tail.length ≠ 0
      else (8 : ℤ) - head.length - tail.length < 0) := by
    split_ifs with hsingle
    · have := hone hsingle
      omega
    · omega
  rw [ipv6Pieces, hbody, hhalves]
  simp only [hhead, htail, Option.bind_eq_bind, Option.bind_some, if_neg hwide, hmissing,
    if_neg (Nat.not_lt.mpr hcount)]

theorem ipv6Pieces_ipv6Text (address : BitVec 128) :
    ipv6Pieces (bracketed (ipv6Text address)) = some (pieces address) := by
  have hbound := toNat_lt_pieces address
  have hlength := length_pieces address
  rw [ipv6Text]
  generalize pieces address = pieces at hbound hlength
  cases hcompressed : compressed pieces with
  | none =>
      have hhalves : splitPairs (piecesText pieces) = [piecesText pieces] := by
        rw [← List.append_nil (piecesText _), splitPairs_piecesText]
        rfl
      rw [ipv6Pieces_of_halves hhalves (Nat.le_succ 1) (partPieces_piecesText hbound) rfl
        (fun _ => hlength) hlength.le, hlength]
      exact congrArg some (List.append_nil pieces)
  | some start =>
      have hmem := List.mem_range.mp (List.mem_of_find?_eq_some hcompressed)
      have hzeros := zerosFrom_le pieces start
      have hparts := take_zeros_drop pieces start
      dsimp only
      generalize zerosFrom pieces start = zeros at hzeros hparts
      have hhalves : splitPairs (piecesText (pieces.take start) ++ ofAscii "::" ++
          piecesText (pieces.drop (start + zeros))) =
          [piecesText (pieces.take start), piecesText (pieces.drop (start + zeros))] := by
        have htail : splitPairs (piecesText (pieces.drop (start + zeros))) =
            [piecesText (pieces.drop (start + zeros))] := by
          rw [← List.append_nil (piecesText _), splitPairs_piecesText]
          rfl
        have hpair (text : JsString) : splitPairs (ofAscii "::" ++ text) = [] :: splitPairs text :=
          rfl
        rw [List.append_assoc, splitPairs_piecesText, hpair, htail]
        exact congrArg (· :: _) (List.append_nil _)
      have hhead := @partPieces_piecesText (pieces.take start)
        fun piece hpiece => hbound piece (List.mem_of_mem_take hpiece)
      have htail := @partPieces_piecesText (pieces.drop (start + zeros))
        fun piece hpiece => hbound piece (List.mem_of_mem_drop hpiece)
      have hsum : (pieces.take start).length = start ∧
          (pieces.drop (start + zeros)).length = 8 - (start + zeros) := by
        rw [List.length_take, List.length_drop, hlength]
        omega
      have hmissing : 8 - (pieces.take start).length - (pieces.drop (start + zeros)).length =
          zeros := by omega
      rw [ipv6Pieces_of_halves hhalves le_rfl hhead htail nofun (by omega), hmissing, hparts]

/-- Each octet is one to three digits, which are read back. -/
theorem decimal_octet : ∀ octet < 256, decimal octet ≠ [] ∧ (decimal octet).length ≤ 3 ∧
    (decimal octet).all Json.digit = true ∧ ofDecimal (decimal octet) = octet := by
  decide +kernel

theorem octets_lt (address : BitVec 32) : ∀ octet ∈ octets address, octet < 256 := by
  obtain ⟨a, b, c, d, ha, hb, hc, hd, rfl⟩ := exists_ipv4 address
  rw [octets_ipv4 ha hb hc hd]
  simp only [List.forall_mem_cons]
  exact ⟨ha, hb, hc, hd, nofun⟩

theorem splitOn_ipv4Text (address : BitVec 32) :
    (ipv4Text address).splitOn (ascii '.') = (octets address).map decimal := by
  apply List.splitOn_intercalate
  · intro text htext
    obtain ⟨octet, hoctet, rfl⟩ := List.mem_map.mp htext
    have hdigits := (decimal_octet octet (octets_lt address octet hoctet)).2.2.1
    exact fun hdot => absurd (List.all_eq_true.mp hdigits _ hdot) (by decide)
  · exact List.cons_ne_nil _ _

theorem ipv4Octets_ipv4Text (address : BitVec 32) :
    ipv4Octets (ipv4Text address) = some (octets address) := by
  have hoctets := octets_lt address
  have hgroups : ((octets address).map decimal).length = 4 ∧
      ((octets address).map decimal).all (fun group =>
        group ≠ [] && group.length ≤ 3 && group.all Json.digit) = true := by
    refine ⟨rfl, List.all_eq_true.mpr fun text htext => ?_⟩
    obtain ⟨octet, hoctet, rfl⟩ := List.mem_map.mp htext
    obtain ⟨hne, hlength, hdigits, -⟩ := decimal_octet octet (hoctets octet hoctet)
    rw [hdigits, decide_eq_true hne, decide_eq_true hlength]
    rfl
  have hread : ((octets address).map decimal).map ofDecimal = octets address := by
    rw [List.map_map]
    exact (List.map_congr_left fun octet hoctet =>
      (decimal_octet octet (hoctets octet hoctet)).2.2.2).trans (List.map_id _)
  have hsmall : (octets address).all (fun octet => octet ≤ 255) = true :=
    List.all_eq_true.mpr fun octet hoctet =>
      decide_eq_true (Nat.le_of_lt_succ (hoctets octet hoctet))
  rw [ipv4Octets, splitOn_ipv4Text, if_pos hgroups, hread, if_pos hsmall]

theorem mem_intercalate {unit separator : CodeUnit} {texts : List JsString}
    (hmem : unit ∈ List.intercalate [separator] texts) :
    unit = separator ∨ ∃ text ∈ texts, unit ∈ text := by
  induction texts with
  | nil => exact absurd hmem List.not_mem_nil
  | cons first rest ih =>
      cases rest with
      | nil =>
          rw [List.intercalate_singleton] at hmem
          exact Or.inr ⟨first, List.mem_cons_self, hmem⟩
      | cons second rest =>
          rw [List.intercalate_cons_cons, List.append_assoc, List.mem_append, List.mem_append,
            List.mem_singleton] at hmem
          rcases hmem with hfirst | hseparator | hrest
          · exact Or.inr ⟨first, List.mem_cons_self, hfirst⟩
          · exact Or.inl hseparator
          · apply (ih hrest).imp_right
            rintro ⟨text, htext, hunit⟩
            exact ⟨text, List.mem_cons_of_mem first htext, hunit⟩

theorem mem_ipv4Text {address : BitVec 32} {unit : CodeUnit} (hmem : unit ∈ ipv4Text address) :
    unit = ascii '.' ∨ Json.digit unit = true := by
  apply (mem_intercalate hmem).imp_right
  rintro ⟨text, htext, hunit⟩
  obtain ⟨octet, hoctet, rfl⟩ := List.mem_map.mp htext
  exact List.all_eq_true.mp (decimal_octet octet (octets_lt address octet hoctet)).2.2.1 _ hunit

theorem mem_piecesText {pieces : List ℕ} {unit : CodeUnit} (hmem : unit ∈ piecesText pieces) :
    unit = ascii ':' ∨ lowerHexDigit unit = true := by
  apply (mem_intercalate hmem).imp_right
  rintro ⟨text, htext, hunit⟩
  obtain ⟨piece, -, rfl⟩ := List.mem_map.mp htext
  exact lowerHex_hexText piece _ hunit

theorem mem_ipv6Text {address : BitVec 128} {unit : CodeUnit} (hmem : unit ∈ ipv6Text address) :
    unit = ascii ':' ∨ lowerHexDigit unit = true := by
  rw [ipv6Text] at hmem
  split at hmem
  · exact mem_piecesText hmem
  · rw [List.mem_append, List.mem_append] at hmem
    rcases hmem with (hhead | hpair) | htail
    · exact mem_piecesText hhead
    · exact Or.inl (List.eq_of_mem_replicate (n := 2) hpair)
    · exact mem_piecesText htail

/-! ## Hosts -/

/-- A domain name, as the parser serializes it: its last label is no number, which the
parser would have read as an address. -/
structure IsName (text : JsString) : Prop where
  nonempty : text ≠ []
  plain : ∀ unit ∈ text, unit ∉ ofAscii "/\\?#@:[]"
  lastLabel : ∀ label, (text.splitOn (ascii '.')).getLast? = some label →
    label ≠ [] → label.all Json.digit = false

/-- The host of an `http:` or `https:` URL. -/
inductive Host where
  | ipv4 (address : BitVec 32)
  | ipv6 (address : BitVec 128)
  | name (text : JsString) (hname : IsName text)

namespace Host

def text : Host → JsString
  | .ipv4 address => ipv4Text address
  | .ipv6 address => bracketed (ipv6Text address)
  | .name text _ => text

/-- `localhost` or a name under it, with or without the root's dot. -/
def LocalName (text : JsString) : Prop :=
  ∃ name, (text = name ∨ text = name ++ ofAscii ".") ∧
    (name = ofAscii "localhost" ∨ ∃ labels, name = labels ++ ofAscii ".localhost")

def Public : Host → Prop
  | .ipv4 address => PublicIpv4 address
  | .ipv6 address => PublicIpv6 address
  | .name text _ => ¬ LocalName text

def Loopback : Host → Prop
  | .ipv4 address => InNetwork (Net.ipv4 127 0 0 0) 8 address
  | .ipv6 address => LoopbackIpv6 address
  | .name text _ => LocalName text

end Host

theorem localName_iff (text : JsString) : localName text = true ↔ Host.LocalName text := by
  have hname (name : JsString) : (decide (name = ofAscii "localhost") ||
      (ofAscii ".localhost").isSuffixOf name) = true ↔
        name = ofAscii "localhost" ∨ ∃ labels, name = labels ++ ofAscii ".localhost" := by
    rw [Bool.or_eq_true, decide_eq_true_eq, List.isSuffixOf_iff_suffix]
    exact or_congr_right ⟨fun ⟨labels, h⟩ => ⟨labels, h.symm⟩, fun ⟨labels, h⟩ => ⟨labels, h.symm⟩⟩
  have hlast (name : JsString) (hlocal : name = ofAscii "localhost" ∨
      ∃ labels, name = labels ++ ofAscii ".localhost") :
      name.getLast? = some (ascii 't') := by
    obtain rfl | ⟨labels, rfl⟩ := hlocal
    · rfl
    · rw [List.getLast?_append]
      rfl
  rw [localName, hname, Host.LocalName]
  constructor
  · intro hlocal
    split_ifs at hlocal with hdot
    · refine ⟨text.dropLast, Or.inr ?_, hlocal⟩
      exact (List.dropLast_append_getLast? _ hdot).symm
    · exact ⟨text, Or.inl rfl, hlocal⟩
  · rintro ⟨name, rfl | rfl, hlocal⟩
    · rw [if_neg]
      · exact hlocal
      · rw [hlast text hlocal]
        decide
    · have hdot : (name ++ ofAscii ".").getLast? = some (ascii '.') := List.getLast?_concat
      rw [if_pos hdot]
      have hcut : (name ++ ofAscii ".").dropLast = name := List.dropLast_concat
      rw [hcut]
      exact hlocal

theorem ipv4Octets_name {text : JsString} (hname : IsName text) : ipv4Octets text = none := by
  rw [ipv4Octets, if_neg]
  rintro ⟨hlength, hgroups⟩
  have hne : text.splitOn (ascii '.') ≠ [] := List.splitOn_ne_nil _ _
  have hlast := List.all_eq_true.mp hgroups _ (List.getLast_mem hne)
  rw [Bool.and_eq_true, Bool.and_eq_true, decide_eq_true_eq] at hlast
  have hlabel := hname.lastLabel _ (List.getLast?_eq_getLast_of_ne_nil hne) hlast.1.1
  exact Bool.false_ne_true (hlabel.symm.trans hlast.2)

section

variable {hostnameOf : JsString → Option JsString} {hostname : JsString}

theorem classifyHost_plain {text : JsString} (hne : text ≠ [])
    (hplain : text.head? ≠ some (ascii '['))
    (hcanonical : canonicalHost hostnameOf hostname = some text) :
    classifyHost hostnameOf hostname =
      match ipv4Octets text with
      | some octets => classifyIpv4 octets
      | none => if localName text then .loopback else .publicHost := by
  obtain ⟨unit, rest, rfl⟩ := List.exists_cons_of_ne_nil hne
  rw [classifyHost, hcanonical]
  exact if_neg hplain

theorem classifyHost_ipv4 {address : BitVec 32}
    (hcanonical : canonicalHost hostnameOf hostname = some (ipv4Text address)) :
    classifyHost hostnameOf hostname = classifyIpv4 (octets address) := by
  have hne : ipv4Text address ≠ [] := by
    intro hempty
    have hread := ipv4Octets_ipv4Text address
    rw [hempty] at hread
    exact absurd hread nofun
  have hplain : (ipv4Text address).head? ≠ some (ascii '[') := fun hhead =>
    absurd (mem_ipv4Text (List.mem_of_head? hhead)) (by decide)
  rw [classifyHost_plain hne hplain hcanonical, ipv4Octets_ipv4Text]

theorem classifyHost_ipv6 {address : BitVec 128}
    (hcanonical : canonicalHost hostnameOf hostname = some (bracketed (ipv6Text address))) :
    classifyHost hostnameOf hostname = classifyIpv6 (pieces address) := by
  rw [classifyHost, hcanonical]
  simp only [bracketed, List.head?_cons, if_pos]
  rw [← bracketed, ipv6Pieces_ipv6Text]

theorem classifyHost_name {text : JsString} (hname : IsName text)
    (hcanonical : canonicalHost hostnameOf hostname = some text) :
    classifyHost hostnameOf hostname =
      if localName text then .loopback else .publicHost := by
  have hplain : text.head? ≠ some (ascii '[') := fun hhead =>
    hname.plain _ (List.mem_of_head? hhead) (by decide)
  rw [classifyHost_plain hname.nonempty hplain hcanonical, ipv4Octets_name hname]

theorem classifyHost_public {host : Host}
    (hcanonical : canonicalHost hostnameOf hostname = some host.text) :
    classifyHost hostnameOf hostname = .publicHost ↔ host.Public := by
  cases host with
  | ipv4 address =>
      rw [classifyHost_ipv4 hcanonical]
      exact classifyIpv4_public address
  | ipv6 address =>
      rw [classifyHost_ipv6 hcanonical]
      exact classifyIpv6_public address
  | name text hname =>
      rw [classifyHost_name hname hcanonical]
      change _ ↔ ¬ Host.LocalName text
      rw [← localName_iff]
      split_ifs with hlocal
      · exact iff_of_false nofun (not_not_intro hlocal)
      · exact iff_of_true rfl hlocal

theorem classifyHost_loopback {host : Host}
    (hcanonical : canonicalHost hostnameOf hostname = some host.text) :
    classifyHost hostnameOf hostname = .loopback ↔ host.Loopback := by
  cases host with
  | ipv4 address =>
      rw [classifyHost_ipv4 hcanonical]
      exact classifyIpv4_loopback address
  | ipv6 address =>
      rw [classifyHost_ipv6 hcanonical]
      exact classifyIpv6_loopback address
  | name text hname =>
      rw [classifyHost_name hname hcanonical]
      change _ ↔ Host.LocalName text
      rw [← localName_iff]
      split_ifs with hlocal
      · exact iff_of_true rfl hlocal
      · exact iff_of_false nofun hlocal

/-- A host without a canonical form is private. -/
theorem exists_canonicalHost
    (hserialized : ∀ text hostname, hostnameOf (httpUrl text) = some hostname →
      ∃ host : Host, host.text = hostname)
    (hclass : classifyHost hostnameOf hostname ≠ .privateHost) :
    ∃ host : Host, canonicalHost hostnameOf hostname = some host.text := by
  cases hcanonical : canonicalHost hostnameOf hostname with
  | none =>
      rw [classifyHost, hcanonical] at hclass
      exact absurd rfl hclass
  | some canonical =>
      rw [canonicalHost] at hcanonical
      split at hcanonical
      · exact absurd hcanonical nofun
      · obtain ⟨host, hhost⟩ := hserialized _ _ hcanonical
        exact ⟨host, congrArg some hhost.symm⟩

theorem delimiters : ∀ unit ∈ ofAscii "/\\?#@", unit ∉ ofAscii ".:[]" ∧
    Json.digit unit = false ∧ lowerHexDigit unit = false ∧ unit ∈ ofAscii "/\\?#@:[]" := by
  have hall : (ofAscii "/\\?#@").all (fun unit => decide (unit ∉ ofAscii ".:[]" ∧
      Json.digit unit = false ∧ lowerHexDigit unit = false ∧ unit ∈ ofAscii "/\\?#@:[]")) := by
    decide
  exact fun unit hmem => of_decide_eq_true (List.all_eq_true.mp hall unit hmem)

theorem Host.not_delimiter (host : Host) : host.text.any delimiter = false := by
  rw [List.any_eq_false]
  intro unit hmem hdelimiter
  obtain ⟨hmark, hdigit, hhex, hplain⟩ := delimiters unit (of_decide_eq_true hdelimiter)
  cases host with
  | ipv4 address =>
      rcases mem_ipv4Text hmem with rfl | hclass
      · exact hmark (by decide)
      · exact Bool.false_ne_true (hdigit.symm.trans hclass)
  | ipv6 address =>
      rcases List.mem_cons.mp hmem with rfl | hrest
      · exact hmark (by decide)
      rcases List.mem_append.mp hrest with htext | hlast
      · rcases mem_ipv6Text htext with rfl | hclass
        · exact hmark (by decide)
        · exact Bool.false_ne_true (hhex.symm.trans hclass)
      · obtain rfl := List.mem_singleton.mp hlast
        exact hmark (by decide)
  | name text hname => exact hname.plain unit hmem hplain

/-- A serialized host is its own canonical form. -/
theorem canonicalHost_text {host : Host}
    (hsettled : hostnameOf (httpUrl host.text) = some host.text) :
    canonicalHost hostnameOf host.text = some host.text := by
  have hbrackets : ¬ (ascii ':' ∈ host.text ∧ host.text.head? ≠ some (ascii '[')) := by
    rintro ⟨hcolon, hhead⟩
    cases host with
    | ipv4 address => exact absurd (mem_ipv4Text hcolon) (by decide)
    | ipv6 address => exact hhead rfl
    | name text hname => exact hname.plain _ hcolon (by decide)
  rw [canonicalHost, host.not_delimiter, if_neg Bool.false_ne_true]
  simp only [if_neg hbrackets, hsettled]

end

/-! ## Refusals -/

/-- Where a request to a target may lead. -/
def Allowed (hostnameOf : JsString → Option JsString) (configured target : ParsedUrl) : Prop :=
  target.origin = configured.origin ∨
    (∃ host : Host, host.text = target.hostname ∧ host.Loopback) ∧
      (∃ host : Host, canonicalHost hostnameOf configured.hostname = some host.text ∧
        host.Loopback) ∨
    target.protocol = ofAscii "https:" ∧
      ∃ host : Host, host.text = target.hostname ∧ host.Public

theorem learned_url_public (hostnameOf : JsString → Option JsString)
    (hserialized : ∀ text hostname, hostnameOf (httpUrl text) = some hostname →
      ∃ host : Host, host.text = hostname)
    (configured target : ParsedUrl)
    (hsettled : target.protocol = ofAscii "https:" ∨ target.protocol = ofAscii "http:" →
      hostnameOf (httpUrl target.hostname) = some target.hostname) :
    (learnedUrlRefusal hostnameOf configured target = none →
      (target.protocol = ofAscii "https:" ∨ target.protocol = ofAscii "http:") ∧
        Allowed hostnameOf configured target) ∧
    (∀ address : BitVec 128, ipv6Pieces (bracketed (ipv6Text address)) = some (pieces address) ∧
      (classifyIpv6 (pieces address) = .publicHost ↔ PublicIpv6 address)) ∧
    (∀ address : BitVec 32, ipv4Octets (ipv4Text address) = some (octets address) ∧
      (classifyIpv4 (octets address) = .publicHost ↔ PublicIpv4 address)) ∧
    ∀ hostname, classifyHost hostnameOf hostname = .publicHost →
      ∃ host : Host, canonicalHost hostnameOf hostname = some host.text ∧ host.Public := by
  refine ⟨fun hallowed => ?_, fun address => ⟨ipv6Pieces_ipv6Text address,
    classifyIpv6_public address⟩, fun address => ⟨ipv4Octets_ipv4Text address,
    classifyIpv4_public address⟩, fun hostname hpublic => ?_⟩
  · rw [learnedUrlRefusal] at hallowed
    split at hallowed
    · exact absurd hallowed nofun
    rename_i hprotocol
    have hspecial : target.protocol = ofAscii "https:" ∨ target.protocol = ofAscii "http:" := by
      rwa [not_and_or, not_not, not_not] at hprotocol
    obtain ⟨host, hhost⟩ := hserialized _ _ (hsettled hspecial)
    have hcanonical : canonicalHost hostnameOf target.hostname = some host.text := by
      rw [← hhost]
      apply canonicalHost_text
      rw [hhost]
      exact hsettled hspecial
    refine ⟨hspecial, ?_⟩
    by_cases horigin : target.origin = configured.origin
    · exact Or.inl horigin
    rw [if_neg horigin] at hallowed
    dsimp only at hallowed
    by_cases hloopback : classifyHost hostnameOf target.hostname = .loopback ∧
        classifyHost hostnameOf configured.hostname = .loopback
    · have hconfigured : classifyHost hostnameOf configured.hostname ≠ .privateHost := by
        rw [hloopback.2]
        exact nofun
      obtain ⟨own, hown⟩ := exists_canonicalHost hserialized hconfigured
      exact Or.inr (Or.inl ⟨⟨host, hhost, (classifyHost_loopback hcanonical).mp hloopback.1⟩,
        ⟨own, hown, (classifyHost_loopback hown).mp hloopback.2⟩⟩)
    rw [if_neg hloopback] at hallowed
    by_cases hclass : classifyHost hostnameOf target.hostname = .publicHost
    · rw [if_neg (not_not_intro hclass)] at hallowed
      by_cases hsecure : target.protocol = ofAscii "https:"
      · exact Or.inr (Or.inr ⟨hsecure, host, hhost, (classifyHost_public hcanonical).mp hclass⟩)
      · rw [if_pos hsecure] at hallowed
        exact absurd hallowed nofun
    · rw [if_pos hclass] at hallowed
      exact absurd hallowed nofun
  · obtain ⟨host, hcanonical⟩ := exists_canonicalHost hserialized (hpublic.trans_ne nofun)
    exact ⟨host, hcanonical, (classifyHost_public hcanonical).mp hpublic⟩

theorem isName_example : IsName (ofAscii "auth.example.com") where
  nonempty := by decide
  plain := by
    have hall : (ofAscii "auth.example.com").all (· ∉ ofAscii "/\\?#@:[]") := by decide
    exact fun unit hmem => of_decide_eq_true (List.all_eq_true.mp hall unit hmem)
  lastLabel := by
    intro label hlabel
    obtain rfl := Option.some.inj hlabel
    decide

theorem learned_url_public_example :
    learnedUrlRefusal
      (fun text => if text = httpUrl (ofAscii "auth.example.com") then
        some (ofAscii "auth.example.com") else none)
      ⟨ofAscii "https:", ofAscii "https://mcp.example.com", ofAscii "mcp.example.com",
        ofAscii "mcp.example.com"⟩
      ⟨ofAscii "https:", ofAscii "https://auth.example.com", ofAscii "auth.example.com",
        ofAscii "auth.example.com"⟩ = none ∧
    Allowed
      (fun text => if text = httpUrl (ofAscii "auth.example.com") then
        some (ofAscii "auth.example.com") else none)
      ⟨ofAscii "https:", ofAscii "https://mcp.example.com", ofAscii "mcp.example.com",
        ofAscii "mcp.example.com"⟩
      ⟨ofAscii "https:", ofAscii "https://auth.example.com", ofAscii "auth.example.com",
        ofAscii "auth.example.com"⟩ := by
  have hnone : learnedUrlRefusal
      (fun text => if text = httpUrl (ofAscii "auth.example.com") then
        some (ofAscii "auth.example.com") else none)
      ⟨ofAscii "https:", ofAscii "https://mcp.example.com", ofAscii "mcp.example.com",
        ofAscii "mcp.example.com"⟩
      ⟨ofAscii "https:", ofAscii "https://auth.example.com", ofAscii "auth.example.com",
        ofAscii "auth.example.com"⟩ = none := by decide +kernel
  refine ⟨hnone, ((learned_url_public _ ?_ _ _ fun _ => if_pos rfl).1 hnone).2⟩
  intro text hostname hparsed
  split_ifs at hparsed
  exact ⟨.name _ isName_example, Option.some.inj hparsed⟩

end Connecta.Net
