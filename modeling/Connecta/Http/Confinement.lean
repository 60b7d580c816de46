import Connecta.Rest.OperationIndex
import Connecta.Runtime.Url

/-!
# What was validated is what is sent

The guarded client joins a base URL and a provider-relative path as text and
parses the result; the pinned index has already split the same path and matched
its segments.  The two agree on every path an index accepts but for those that
end in a space, which the parser trims, and those with a surrogate that has no
partner, which it replaces.
-/

namespace Connecta.Http

open Connecta.Runtime
open Connecta.Runtime.Url
open Connecta.Rest

/-! ## The guarded client -/

/-- A base the requests are confined beneath. -/
def confinementBase (authority : AuthorityParser) (provider : String)
    (baseUrl : JsString) : Except String Url :=
  match newUrl authority baseUrl with
  | none => .error s!"{provider} baseUrl must be an absolute URL."
  | some base =>
      let loopback := ["localhost", "127.0.0.1", "[::1]"].any fun name =>
        base.hostname = JsString.ofAscii name
      if base.protocol ≠ JsString.ofAscii "https:" &&
          !(base.protocol = JsString.ofAscii "http:" && loopback) then
        .error (s!"{provider} baseUrl must be https (http is allowed only for " ++
          "a loopback proxy or test double).")
      else if base.username ≠ [] || base.password ≠ [] then
        .error (s!"{provider} baseUrl must not embed URL credentials; " ++
          "authentication belongs in headers.")
      else if base.search ≠ [] || base.hash ≠ [] then
        .error s!"{provider} baseUrl must not carry a query or fragment."
      else .ok base

/-- `base.pathname.replace(/\/+$/, "")` -/
def basePath (base : Url) : JsString :=
  base.pathname.rdropWhile (· = ascii '/')

/-- The confinement `preprocess` puts a request's path through. -/
def confine (authority : AuthorityParser) (provider : String) (base : Url)
    (path : JsString) : Except String Url :=
  if path.head? ≠ some (ascii '/') then
    .error (s!"A {provider} request path is provider-relative and must begin " ++
      "with \"/\".")
  else if path.any fun unit => unit = ascii '?' || unit = ascii '#' then
    .error (s!"A {provider} request path carries no query or fragment; put " ++
      "query parameters in the query argument.")
  else match newUrl authority (base.origin ++ basePath base ++ path) with
  | none => .error s!"A {provider} request path did not resolve to a valid URL."
  | some url =>
      if url.origin ≠ base.origin ||
          !(basePath base ++ [ascii '/']).isPrefixOf
            (url.pathname ++ [ascii '/']) then
        .error s!"A {provider} request path escaped the connector's base URL."
      else .ok url

/-! ## One segment -/

/-- A segment of the sent path spells the same characters. -/
structure SameCharacters (segment sent : JsString) : Prop where
  whole : ascii '/' ∉ sent
  decoded : ∃ text, decodeURIComponent segment = some text ∧
    decodeURIComponent sent = some text

/-- What is no escape is in the decoded text. -/
theorem mem_of_decodes {text decoded : JsString} (hdecodes : Decodes text decoded)
    {unit : CodeUnit} (hunit : unit ∈ text) (hpercent : unit ≠ ascii '%')
    (hhex : hexValue unit = none) : unit ∈ decoded := by
  have hspelled : ∀ {spelled : JsString} {bytes : List ℕ}, Spells spelled bytes →
      unit ∉ spelled := by
    intro spelled bytes hspelled
    induction hspelled with
    | nil => exact List.not_mem_nil
    | cons hupper hlower _ ih =>
        intro hmem
        simp only [List.mem_cons] at hmem
        rcases hmem with rfl | rfl | rfl | hmem
        · exact hpercent rfl
        · rw [hhex] at hupper
          cases hupper
        · rw [hhex] at hlower
          cases hlower
        · exact ih hmem
  induction hdecodes with
  | nil => exact absurd hunit List.not_mem_nil
  | unit _ _ ih =>
      rcases List.mem_cons.mp hunit with rfl | hunit
      · exact List.mem_cons_self ..
      · exact List.mem_cons_of_mem _ (ih hunit)
  | escape _ hspells _ ih =>
      rcases List.mem_append.mp hunit with hunit | hunit
      · exact absurd hunit (hspelled hspells)
      · exact List.mem_append_right _ (ih hunit)

/-- A small scalar is a unit of the text. -/
theorem mem_of_mem_scalars {text : JsString} {point : ℕ}
    (hpoint : point ∈ scalars text) (hsmall : point < 0x80) :
    ∃ unit ∈ text, unit.toNat = point := by
  have hpoints : ∀ point ∈ JsString.codePoints text, point < 0x80 →
      ∃ unit ∈ text, unit.toNat = point := by
    clear hpoint
    generalize hlength : text.length = length
    induction length using Nat.strong_induction_on generalizing text with
    | _ length ih =>
        cases text with
        | nil => simp [JsString.codePoints]
        | cons unit rest =>
            intro point hpoint hsmall
            rcases codePoints_cons unit rest with
              ⟨low, tail, rfl, -, -, hpoints⟩ | hpoints
            · rw [hpoints] at hpoint
              rcases List.mem_cons.mp hpoint with hsame | hlater
              · omega
              · obtain ⟨other, hother, hsame⟩ := ih tail.length
                  (by rw [← hlength]; simp only [List.length_cons]; omega) rfl point hlater hsmall
                exact ⟨other, List.mem_cons_of_mem _ (List.mem_cons_of_mem _
                  hother), hsame⟩
            · rw [hpoints] at hpoint
              rcases List.mem_cons.mp hpoint with hsame | hlater
              · exact ⟨unit, List.mem_cons_self .., hsame.symm⟩
              · obtain ⟨other, hother, hsame⟩ := ih rest.length
                  (by rw [← hlength]; simp) rfl point hlater hsmall
                exact ⟨other, List.mem_cons_of_mem _ hother, hsame⟩
  obtain ⟨original, horiginal, rfl⟩ := List.mem_map.mp hpoint
  split at hsmall
  · omega
  · rename_i hlone
    rw [if_neg hlone]
    exact hpoints original horiginal hsmall

/-- What the parser sees in a segment of an accepted path. -/
structure Readable (segment : JsString) : Prop where
  lower : ∀ point ∈ scalars segment, 0x20 ≤ point
  delimited : ∀ point ∈ scalars segment, slash point = false ∧
    pathEnd point = false

theorem Readable.of_units {segment : JsString}
    (hunits : ∀ unit ∈ segment, 0x20 ≤ unit.toNat ∧ slash unit.toNat = false ∧
      pathEnd unit.toNat = false) : Readable segment := by
  have hsmall : ∀ point ∈ scalars segment, point < 0x80 →
      0x20 ≤ point ∧ slash point = false ∧ pathEnd point = false := by
    intro point hpoint hsmall
    obtain ⟨unit, hunit, rfl⟩ := mem_of_mem_scalars hpoint hsmall
    exact hunits unit hunit
  refine ⟨fun point hpoint => ?_, fun point hpoint => ?_⟩
  · by_cases hlow : point < 0x80
    · exact (hsmall point hpoint hlow).1
    · omega
  · by_cases hlow : point < 0x80
    · exact (hsmall point hpoint hlow).2
    · simp only [slash, pathEnd, Bool.or_eq_false_iff, decide_eq_false_iff_not]
      omega

theorem readable_of_accepted {segment : JsString} (haccepted : Accepted segment)
    (hslash : ascii '/' ∉ segment)
    (hquery : ∀ unit ∈ segment, unit ≠ ascii '?' ∧ unit ≠ ascii '#') :
    ∀ unit ∈ segment, 0x20 ≤ unit.toNat ∧ slash unit.toNat = false ∧
      pathEnd unit.toNat = false := by
  obtain ⟨decoded, hdecodes, -, -, hbackslash, hcontrol⟩ := haccepted.decodes
  intro unit hunit
  refine ⟨?_, ?_, ?_⟩
  · by_contra hlower
    rw [not_le] at hlower
    have hhex : hexValue unit = none := by
      rcases hvalue : hexValue unit with _ | value
      · rfl
      · have hrange := hexValue_range hvalue
        omega
    have hmem := mem_of_decodes hdecodes hunit (by
      rintro rfl
      exact absurd hlower (by decide)) hhex
    exact hcontrol unit hmem (UInt16.lt_iff_toNat_lt.mpr hlower)
  · by_contra hdelimiter
    rw [Bool.not_eq_false] at hdelimiter
    simp only [slash, Bool.or_eq_true, decide_eq_true_eq] at hdelimiter
    rcases hdelimiter with hforward | hbackward
    · exact hslash (UInt16.toNat_inj.mp
        (show unit.toNat = (ascii '/').toNat from hforward) ▸ hunit)
    · obtain rfl : unit = 0x5C := UInt16.toNat_inj.mp hbackward
      exact hbackslash (mem_of_decodes hdecodes hunit (by decide) (by decide))
  · obtain ⟨hquestion, hhash⟩ := hquery unit hunit
    simp only [pathEnd, Bool.or_eq_false_iff, decide_eq_false_iff_not]
    exact ⟨fun hsame => hquestion (UInt16.toNat_inj.mp hsame),
      fun hsame => hhash (UInt16.toNat_inj.mp hsame)⟩

/-- ASCII is what it was replaced from. -/
theorem eq_of_replaced {decoded sent : JsString}
    (hreplaced : List.Forall₂ Replaced decoded sent)
    (hsent : (0xFFFD : CodeUnit) ∉ sent) : decoded = sent := by
  induction hreplaced with
  | nil => rfl
  | cons hfirst _ ih =>
      rw [List.mem_cons, not_or] at hsent
      rcases hfirst with rfl | ⟨-, rfl⟩
      · rw [ih hsent.2]
      · exact absurd rfl hsent.1

theorem decodes_of_singleDot {buffer : JsString}
    (hbuffer : singleDot buffer = true) : Decodes buffer dot := by
  simp only [singleDot, List.any_cons, List.any_nil, Bool.or_false,
    Bool.or_eq_true, decide_eq_true_eq] at hbuffer
  rcases hbuffer with rfl | rfl | rfl <;>
    exact decodeURIComponent_eq_some.mp (by decide)

theorem decodes_of_doubleDot {buffer : JsString}
    (hbuffer : doubleDot buffer = true) : Decodes buffer dots := by
  simp only [doubleDot, List.any_cons, List.any_nil, Bool.or_false,
    Bool.or_eq_true, decide_eq_true_eq] at hbuffer
  rcases hbuffer with rfl | rfl | rfl | rfl | rfl | rfl | rfl | rfl | rfl <;>
    exact decodeURIComponent_eq_some.mp (by decide)

/-- A segment the index accepts is no dot segment to the parser either. -/
theorem ordinary_of_accepted {segment : JsString} (haccepted : Accepted segment)
    (hreadable : Readable segment) : Ordinary (scalars segment) := by
  obtain ⟨decoded, hdecodes, hdot, hdots, -, -⟩ := haccepted.decodes
  obtain ⟨sent, hsent, hreplaced, -⟩ := decodes_encodePath hdecodes
  refine ⟨hreadable.delimited, ?_, ?_⟩
  · by_contra hsingle
    rw [Bool.not_eq_false] at hsingle
    obtain rfl := hsent.unique (decodes_of_singleDot hsingle)
    exact hdot (eq_of_replaced hreplaced (by decide))
  · by_contra hdouble
    rw [Bool.not_eq_false] at hdouble
    obtain rfl := hsent.unique (decodes_of_doubleDot hdouble)
    exact hdots (eq_of_replaced hreplaced (by decide))

end Connecta.Http
