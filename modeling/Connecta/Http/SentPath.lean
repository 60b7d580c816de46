import Connecta.Http.Confinement

/-!
# The path that is sent

The base path and the accepted segments go through the parser's path state one
after another.  Only the last segment can come out changed in kind: what the
parser trims from the end of the whole text is gone from it.
-/

namespace Connecta.Http

open Connecta.Runtime
open Connecta.Runtime.Url
open Connecta.Rest

/-! ## Paths as their segments -/

theorem segments_ne_nil (path : JsString) : segments path ≠ [] := by
  unfold segments
  simp

theorem path_eq_flatMap {path : JsString}
    (hrelative : path.head? = some (ascii '/')) :
    path = (segments path).flatMap (ascii '/' :: ·) := by
  have hjoin : ∀ parts : List JsString, parts ≠ [] →
      parts.flatMap (ascii '/' :: ·) =
        ascii '/' :: [ascii '/'].intercalate parts := by
    intro parts
    induction parts with
    | nil => intro hnonempty; exact absurd rfl hnonempty
    | cons part rest ih =>
        intro _
        cases rest with
        | nil => simp [List.intercalate]
        | cons next others =>
            rw [List.flatMap_cons, ih (List.cons_ne_nil _ _)]
            simp [List.intercalate]
  rw [hjoin _ (segments_ne_nil path), segments, List.intercalate_splitOn]
  cases path with
  | nil => cases hrelative
  | cons unit rest =>
      obtain rfl := Option.some.inj hrelative
      rfl

theorem not_mem_of_mem_splitOn {unit : CodeUnit} {text segment : JsString}
    (hsegment : segment ∈ text.splitOn unit) : unit ∉ segment := by
  induction text generalizing segment with
  | nil =>
      rw [List.splitOn_nil] at hsegment
      obtain rfl := List.mem_singleton.mp hsegment
      exact List.not_mem_nil
  | cons first rest ih =>
      rw [List.splitOn_cons_eq_if_modifyHead] at hsegment
      split at hsegment
      · rcases List.mem_cons.mp hsegment with rfl | hlater
        · exact List.not_mem_nil
        · exact ih hlater
      · rename_i hfirst
        obtain ⟨part, others, hparts⟩ :=
          List.exists_cons_of_ne_nil (List.splitOn_ne_nil unit rest)
        rw [hparts] at hsegment ih
        rcases List.mem_cons.mp hsegment with rfl | hlater
        · intro hmem
          rcases List.mem_cons.mp hmem with rfl | hmem
          · exact hfirst (beq_self_eq_true _)
          · exact ih (List.mem_cons_self ..) hmem
        · exact ih (List.mem_cons_of_mem _ hlater)

theorem scalars_flatMap_slash (parts : List JsString) :
    scalars (parts.flatMap (ascii '/' :: ·)) =
      parts.flatMap fun part => 0x2F :: scalars part := by
  induction parts with
  | nil => rfl
  | cons part rest ih =>
      have hfirst : ∀ text : JsString, scalars (ascii '/' :: text) =
          0x2F :: scalars text := fun text =>
        @scalars_append [ascii '/']
          (fun unit hunit => by rw [List.mem_singleton.mp hunit]; decide) text
      rw [List.flatMap_cons, List.flatMap_cons, List.cons_append, hfirst, ← ih,
        List.cons_append]
      congr 1
      cases rest with
      | nil => simp [scalars, JsString.codePoints]
      | cons next others =>
          rw [List.flatMap_cons, List.cons_append,
            scalars_append_of_not_low part (by decide)]

/-- The first scalar of a text is a space only if its first unit is. -/
theorem scalars_cons (unit : CodeUnit) (rest : JsString) :
    ∃ point tail, scalars (unit :: rest) = point :: scalars tail ∧
      tail.length ≤ rest.length ∧
      ((tail = rest ∧ (point = 0x20 → unit = 0x20)) ∨
        ∃ low, rest = low :: tail ∧ point ≠ 0x20) := by
  rcases codePoints_cons unit rest with
    ⟨low, tail, rfl, -, -, hpoints⟩ | hpoints
  · refine ⟨_, tail, by rw [scalars, hpoints, List.map_cons]; rfl, ?_,
      .inr ⟨low, rfl, ?_⟩⟩
    · rw [List.length_cons]
      exact Nat.le_succ _
    · split
      · decide
      · omega
  · refine ⟨_, rest, by rw [scalars, hpoints, List.map_cons]; rfl, le_rfl,
      .inl ⟨rfl, fun hspace => ?_⟩⟩
    split at hspace
    · cases hspace
    · exact UInt16.toNat_inj.mp hspace

/-- Only a trailing space is converted to one. -/
theorem getLast?_of_scalars {text : JsString}
    (hspace : (scalars text).getLast? = some 0x20) :
    text.getLast? = some 0x20 := by
  generalize hlength : text.length = length
  induction length using Nat.strong_induction_on generalizing text with
  | _ length ih =>
      cases text with
      | nil => cases hspace
      | cons unit rest =>
          obtain ⟨point, tail, hscalars, hshorter, hfirst⟩ := scalars_cons unit rest
          rw [hscalars] at hspace
          by_cases htail : scalars tail = []
          · rw [htail, List.getLast?_singleton, Option.some.injEq] at hspace
            have hnil : tail = [] := by
              cases tail with
              | nil => rfl
              | cons next others =>
                  obtain ⟨_, _, hnext, -, -⟩ := scalars_cons next others
                  rw [hnext] at htail
                  cases htail
            rcases hfirst with ⟨rfl, hunit⟩ | ⟨low, -, hpoint⟩
            · rw [hnil, hunit hspace]
              rfl
            · exact absurd hspace hpoint
          · rw [List.getLast?_cons_of_ne_nil htail] at hspace
            have hfound := ih tail.length
              (by rw [← hlength, List.length_cons]; omega) hspace rfl
            have hnonempty : tail ≠ [] := by
              rintro rfl
              cases hfound
            rcases hfirst with ⟨rfl, -⟩ | ⟨low, rfl, -⟩
            · rwa [List.getLast?_cons_of_ne_nil hnonempty]
            · rwa [List.getLast?_cons_of_ne_nil (List.cons_ne_nil _ _),
                List.getLast?_cons_of_ne_nil hnonempty]

/-! ## The base path -/

/-- The base's segments, less the empty ones at the end. -/
def baseSegments (base : Url) : List JsString :=
  base.path.rdropWhile (· = [])

theorem basePath_eq {base : Url} (hsettled : Settled base.path) :
    basePath base = (baseSegments base).flatMap (ascii '/' :: ·) := by
  have hdrop : ∀ parts : List JsString, Settled parts →
      (parts.flatMap (ascii '/' :: ·)).rdropWhile (· = ascii '/') =
        (parts.rdropWhile (· = [])).flatMap (ascii '/' :: ·) := by
    intro parts
    induction parts using List.reverseRecOn with
    | nil => intro _; rfl
    | append_singleton front part ih =>
        intro hparts
        have hfront : Settled front := fun segment hsegment =>
          hparts segment (List.mem_append_left _ hsegment)
        by_cases hempty : part = []
        · subst hempty
          rw [List.flatMap_append, List.flatMap_singleton,
            List.rdropWhile_concat_pos _ _ _ (by simp),
            List.rdropWhile_concat_pos _ _ _ (by simp)]
          exact ih hfront
        · obtain ⟨units, last, rfl⟩ :=
            List.eq_nil_or_concat part |>.resolve_left hempty
          have hplain := (hparts _ (List.mem_append_right _
            (List.mem_singleton_self _))).1 last (by simp)
          have hlast : last ≠ ascii '/' := by
            rintro rfl
            exact absurd hplain.2.1 (by decide)
          have hwhole : (front ++ [units.concat last]).flatMap (ascii '/' :: ·) =
              front.flatMap (ascii '/' :: ·) ++ ascii '/' :: units ++ [last] := by
            simp
          rw [hwhole, List.rdropWhile_concat_neg _ _ _ (by simpa using hlast),
            List.rdropWhile_concat_neg _ _ _ (by simp), hwhole]
  exact hdrop base.path hsettled

theorem settled_baseSegments {base : Url} (hsettled : Settled base.path) :
    Settled (baseSegments base) := fun segment hsegment =>
  hsettled segment ((List.rdropWhile_prefix _ _).subset hsegment)

/-! ## What the parser makes of the whole -/

/-- A path an index accepted, up to the spaces at its end. -/
structure Ends (path : JsString) (front : List JsString) (last : JsString)
    (spaces : ℕ) : Prop where
  relative : path.head? = some (ascii '/')
  segments : segments path = front ++ [last ++ List.replicate spaces 0x20]
  trimmed : last.getLast? ≠ some 0x20
  front : ∀ segment ∈ front, Accepted segment ∧ Readable segment
  accepted : Accepted (last ++ List.replicate spaces 0x20)
  last : Readable last

theorem exists_ends {path : JsString} (hrelative : path.head? = some (ascii '/'))
    (hquery : ∀ unit ∈ path, unit ≠ ascii '?' ∧ unit ≠ ascii '#')
    (haccepted : ∀ segment ∈ segments path, Accepted segment) :
    ∃ front last spaces, Ends path front last spaces := by
  have hunits : ∀ segment ∈ Rest.segments path, ∀ unit ∈ segment,
      0x20 ≤ unit.toNat ∧ slash unit.toNat = false ∧
        pathEnd unit.toNat = false := by
    intro segment hsegment
    refine readable_of_accepted (haccepted segment hsegment)
      (not_mem_of_mem_splitOn hsegment) fun unit hunit => hquery unit ?_
    rw [path_eq_flatMap hrelative]
    exact List.mem_flatMap.mpr ⟨segment, hsegment, List.mem_cons_of_mem _ hunit⟩
  obtain ⟨front, whole, hwhole⟩ : ∃ front whole,
      Rest.segments path = front ++ [whole] := by
    rcases List.eq_nil_or_concat (Rest.segments path) with hnil | ⟨front, whole, h⟩
    · exact absurd hnil (segments_ne_nil path)
    · exact ⟨front, whole, by rw [h, List.concat_eq_append]⟩
  obtain ⟨last, spaces, hlast, htrimmed⟩ : ∃ last spaces,
      whole = last ++ List.replicate spaces 0x20 ∧
        last.getLast? ≠ some (0x20 : CodeUnit) := by
    clear hwhole
    induction whole using List.reverseRecOn with
    | nil => exact ⟨[], 0, rfl, by simp⟩
    | append_singleton units unit ih =>
        by_cases hunit : unit = 0x20
        · obtain ⟨last, spaces, rfl, htrimmed⟩ := ih
          refine ⟨last, spaces + 1, ?_, htrimmed⟩
          rw [hunit, List.replicate_succ', List.append_assoc]
        · exact ⟨units ++ [unit], 0, by simp, by simpa using hunit⟩
  subst hlast
  have hmem : last ++ List.replicate spaces 0x20 ∈ Rest.segments path := by
    rw [hwhole]
    simp
  refine ⟨front, last, spaces, hrelative, hwhole, htrimmed,
    fun segment hsegment => ?_, haccepted _ hmem, ?_⟩
  · have hfront : segment ∈ Rest.segments path := by
      rw [hwhole]
      exact List.mem_append_left _ hsegment
    exact ⟨haccepted segment hfront, .of_units (hunits segment hfront)⟩
  · exact .of_units fun unit hunit =>
      hunits _ hmem unit (List.mem_append_left _ hunit)

variable {authority : AuthorityParser}

/-- The parser keeps the origin, the base's segments and every segment before
the last, and ends with the last one less its trailing spaces. -/
theorem newUrl_path (hreparses : Reparses authority) {scheme host : List ℕ}
    {base : Url} (hbase : authority scheme host = some base.toAuthority)
    (hsettled : Settled base.path) {path last : JsString}
    {front : List JsString} {spaces : ℕ} (hends : Ends path front last spaces) :
    ∃ url, newUrl authority (base.origin ++ basePath base ++ path) = some url ∧
      url.origin = base.origin ∧
      url.path = endSegment (encodePath last)
        (baseSegments base ++ front.map encodePath) false := by
  have hparts := settled_baseSegments hsettled
  set parts := baseSegments base with hbaseSegments
  set before : List (List ℕ) := parts.map (·.map UInt16.toNat) ++
    front.map scalars with hbefore
  have hordinary : ∀ points ∈ before, Ordinary points := by
    intro points hpoints
    rcases List.mem_append.mp hpoints with hpoints | hpoints
    · obtain ⟨segment, hsegment, rfl⟩ := List.mem_map.mp hpoints
      exact (ordinary_of_settled hparts hsegment).1
    · obtain ⟨segment, hsegment, rfl⟩ := List.mem_map.mp hpoints
      exact ordinary_of_accepted (hends.front segment hsegment).1
        (hends.front segment hsegment).2
  have hlower : ∀ points ∈ before, ∀ point ∈ points, 0x20 ≤ point := by
    intro points hpoints
    rcases List.mem_append.mp hpoints with hpoints | hpoints
    · obtain ⟨segment, hsegment, rfl⟩ := List.mem_map.mp hpoints
      intro point hpoint
      obtain ⟨unit, hunit, rfl⟩ := List.mem_map.mp hpoint
      exact ((hparts segment hsegment).1 unit hunit).toNat_lt.1.le
    · obtain ⟨segment, hsegment, rfl⟩ := List.mem_map.mp hpoints
      exact (hends.front segment hsegment).2.lower
  have hencoded : before.map (·.flatMap encodePoint) =
      parts ++ front.map encodePath := by
    rw [hbefore, List.map_append, List.map_map, List.map_map]
    congr 1
    conv_rhs => rw [← List.map_id parts]
    refine List.map_congr_left fun segment hsegment => ?_
    exact (ordinary_of_settled hparts hsegment).2
  have htext : basePath base ++ path = (parts ++ front ++
      [last ++ List.replicate spaces 0x20]).flatMap (ascii '/' :: ·) := by
    rw [basePath_eq hsettled, path_eq_flatMap hends.relative, hends.segments,
      List.append_assoc, @List.flatMap_append _ _ parts]
  have hspaces : scalars (last ++ List.replicate spaces 0x20) =
      scalars last ++ List.replicate spaces 0x20 := by
    have hreplicate : scalars (List.replicate spaces 0x20) =
        List.replicate spaces 0x20 := by
      have hplain := @scalars_append (List.replicate spaces 0x20) (by
        intro unit hunit
        rw [List.eq_of_mem_replicate hunit]
        decide) []
      rw [List.append_nil] at hplain
      rw [hplain]
      simp [scalars, JsString.codePoints]
    cases spaces with
    | zero => simp
    | succ spaces =>
        rw [List.replicate_succ, scalars_append_of_not_low last (by decide),
          ← List.replicate_succ, hreplicate]
  have hscalars : scalars (basePath base ++ path) =
      (before ++ [scalars last]).flatMap (0x2F :: ·) ++
        List.replicate spaces 0x20 := by
    rw [htext, scalars_flatMap_slash, List.flatMap_append, List.flatMap_append,
      List.flatMap_singleton, hspaces, hbefore, List.flatMap_append,
      List.flatMap_append, List.flatMap_singleton, List.flatMap_map,
      List.flatMap_map, List.append_assoc, List.append_assoc, List.append_assoc]
    have hplain : (parts.flatMap fun part => 0x2F :: scalars part) =
        parts.flatMap fun part => 0x2F :: part.map UInt16.toNat := by
      refine List.flatMap_congr fun segment hsegment => ?_
      have hwhole := @scalars_append segment (fun unit hunit =>
        ((hparts segment hsegment).1 unit hunit).toNat_lt.2.trans (by decide)) []
      rw [List.append_nil] at hwhole
      rw [hwhole]
      simp [scalars, JsString.codePoints]
    rw [hplain]
    rfl
  obtain ⟨rest, hrest⟩ : ∃ rest, basePath base ++ path = ascii '/' :: rest := by
    rw [htext]
    rcases List.exists_cons_of_ne_nil (show parts ++ front ++
      [last ++ List.replicate spaces 0x20] ≠ [] by simp) with ⟨first, later, h⟩
    rw [h]
    exact ⟨_, rfl⟩
  obtain ⟨points, hpoints⟩ : ∃ points,
      (before ++ [scalars last]).flatMap (0x2F :: ·) = 0x2F :: points :=
    ⟨_, flatMap_slash 0x2F before (scalars last)⟩
  have hallowed : ∀ point ∈ points, 0x20 ≤ point ∧ pathEnd point = false := by
    intro point hpoint
    have hmem : point ∈ (before ++ [scalars last]).flatMap (0x2F :: ·) := by
      rw [hpoints]
      exact List.mem_cons_of_mem _ hpoint
    obtain ⟨piece, hpiece, hpoint⟩ := List.mem_flatMap.mp hmem
    rcases List.mem_cons.mp hpoint with rfl | hpoint
    · exact ⟨by decide, by decide⟩
    · rcases List.mem_append.mp hpiece with hpiece | hpiece
      · exact ⟨hlower piece hpiece point hpoint,
          ((hordinary piece hpiece).delimited point hpoint).2⟩
      · obtain rfl := List.mem_singleton.mp hpiece
        exact ⟨hends.last.lower point hpoint,
          (hends.last.delimited point hpoint).2⟩
  obtain ⟨final, hfinal, htrailing⟩ : ∃ final,
      (0x2F :: points).getLast? = some final ∧ 0x20 < final := by
    rw [← hpoints, flatMap_slash]
    rcases List.eq_nil_or_concat (scalars last) with hnil | ⟨others, final, hlast⟩
    · refine ⟨0x2F, ?_, by decide⟩
      rw [hnil, List.append_nil]
      rcases List.eq_nil_or_concat before with hnone | ⟨others, piece, hbefore⟩
      · rw [hnone]
        rfl
      · rw [hbefore, List.concat_eq_append, List.flatMap_append,
          List.flatMap_singleton, ← List.append_assoc, ← List.cons_append,
          List.getLast?_concat]
    · rw [List.concat_eq_append] at hlast
      refine ⟨final, ?_, ?_⟩
      · rw [hlast, ← List.append_assoc, ← List.cons_append, List.getLast?_concat]
      · have hlower' := hends.last.lower final (by simp [hlast])
        refine lt_of_le_of_ne hlower' fun hspace => hends.trimmed ?_
        refine getLast?_of_scalars ?_
        rw [hlast, ← hspace, List.getLast?_concat]
  rw [List.append_assoc, hrest]
  rw [hrest, hpoints] at hscalars
  obtain ⟨url, hurl, horigin, hpath⟩ :=
    newUrl_origin hreparses hbase hscalars hallowed hfinal htrailing
  refine ⟨url, hurl, horigin, ?_⟩
  rw [hpath, ← hpoints, parsePath_segments hordinary (scalars last)
    hends.last.delimited, hencoded]
  rfl

/-! ## Segment for segment -/

theorem wellFormed_flatMap_slash (parts : List JsString) :
    JsString.wellFormed (parts.flatMap (ascii '/' :: ·)) =
      parts.all JsString.wellFormed := by
  have hfirst : ∀ text : JsString, JsString.wellFormed (ascii '/' :: text) =
      JsString.wellFormed text := fun text =>
    @wellFormed_append [ascii '/']
      (fun unit hunit => by rw [List.mem_singleton.mp hunit]; decide) text
  induction parts with
  | nil => rfl
  | cons part rest ih =>
      rw [List.flatMap_cons, List.cons_append, hfirst, List.all_cons, ← ih]
      cases rest with
      | nil =>
          rw [List.flatMap_nil, List.append_nil]
          exact (Bool.and_true _).symm
      | cons next others =>
          rw [List.flatMap_cons, List.cons_append,
            wellFormed_append_of_not_low part (by decide)]

theorem slash_not_mem_encodePath {segment : JsString}
    (hreadable : Readable segment) : ascii '/' ∉ encodePath segment := by
  intro hmem
  obtain ⟨point, hpoint, hunit⟩ := List.mem_flatMap.mp hmem
  obtain ⟨hslash, hend⟩ := hreadable.delimited point hpoint
  have hplain := plain_encodePoint (scalars_lt segment point hpoint) hslash hend
    _ hunit
  exact absurd hplain.2.1 (by decide)

/-- The parser spells an accepted segment with the same characters exactly when
every surrogate in it has its partner. -/
theorem sameCharacters_iff {segment : JsString} (haccepted : Accepted segment)
    (hreadable : Readable segment) :
    SameCharacters segment (encodePath segment) ↔
      segment.wellFormed = true := by
  obtain ⟨decoded, hdecodes, -⟩ := haccepted.decodes
  obtain ⟨sent, hsent, -, hsame⟩ := decodes_encodePath hdecodes
  constructor
  · rintro ⟨-, text, htext, hencoded⟩
    rw [decodeURIComponent_eq_some] at htext hencoded
    exact hsame.mp ((hsent.unique hencoded).trans (hdecodes.unique htext).symm)
  · intro hwell
    refine ⟨slash_not_mem_encodePath hreadable, decoded,
      decodeURIComponent_eq_some.mpr hdecodes, ?_⟩
    rw [← hsame.mpr hwell]
    exact decodeURIComponent_eq_some.mpr hsent

/-- A segment that keeps its characters keeps its trailing spaces. -/
theorem spaces_eq_zero {last sent : JsString} {spaces : ℕ}
    (haccepted : Accepted (last ++ List.replicate spaces 0x20))
    (hsame : SameCharacters (last ++ List.replicate spaces 0x20) sent)
    (hsent : sent = [] ∨ sent = encodePath last) : spaces = 0 := by
  obtain ⟨-, text, htext, hdecoded⟩ := hsame
  rw [decodeURIComponent_eq_some] at htext hdecoded
  obtain ⟨front, hfront, rfl⟩ := decodes_append_spaces htext
  rcases hsent with rfl | rfl
  · have hnil := hdecoded.unique .nil
    rw [hnil] at htext
    exact absurd (eq_nil_of_decodes_nil htext) haccepted.nonempty
  · obtain ⟨other, hother, hreplaced, -⟩ := decodes_encodePath hfront
    have hlength := congrArg List.length (hother.unique hdecoded)
    rw [← hreplaced.length_eq, List.length_append, List.length_replicate]
      at hlength
    omega

/-! ## The whole path -/

/-- The request goes out beneath the base with the path that was accepted,
segment for segment. -/
def SentAsValidated (authority : AuthorityParser) (provider : String)
    (base : Url) (path : JsString) : Prop :=
  ∃ url sent, confine authority provider base path = .ok url ∧
    url.origin = base.origin ∧
    url.pathname = basePath base ++ sent.flatMap (ascii '/' :: ·) ∧
    List.Forall₂ SameCharacters (segments path) sent

/-- The confinement passes a URL that extends the base path. -/
theorem confine_eq_ok {provider : String} {base url : Url} {path : JsString}
    (hrelative : path.head? = some (ascii '/'))
    (hquery : ∀ unit ∈ path, unit ≠ ascii '?' ∧ unit ≠ ascii '#')
    (hurl : newUrl authority (base.origin ++ basePath base ++ path) = some url)
    (horigin : url.origin = base.origin) {sent : List JsString}
    (hpathname : url.pathname =
      basePath base ++ sent.flatMap (ascii '/' :: ·)) :
    confine authority provider base path = .ok url := by
  have hfront : (basePath base ++ [ascii '/']).isPrefixOf
      (url.pathname ++ [ascii '/']) = true := by
    rw [List.isPrefixOf_iff_prefix, hpathname, List.append_assoc]
    refine (List.prefix_append_right_inj _).mpr ?_
    cases sent with
    | nil => exact List.prefix_rfl
    | cons segment rest => exact ⟨_, rfl⟩
  have hfree : (path.any fun unit => unit = ascii '?' || unit = ascii '#') =
      false := by
    rw [List.any_eq_false]
    intro unit hunit
    simp [hquery unit hunit]
  unfold confine
  rw [if_neg (not_not.mpr hrelative), if_neg (by rw [hfree]; simp), hurl]
  dsimp only
  rw [hfront, horigin, if_neg (by simp)]

theorem newUrl_of_confine {provider : String} {base url : Url} {path : JsString}
    (hconfine : confine authority provider base path = .ok url) :
    newUrl authority (base.origin ++ basePath base ++ path) = some url := by
  unfold confine at hconfine
  split at hconfine
  · cases hconfine
  · split at hconfine
    · cases hconfine
    · split at hconfine
      · cases hconfine
      · rename_i found hfound
        split at hconfine
        · cases hconfine
        · rw [hfound, Except.ok.inj hconfine]

theorem confinementBase_eq_ok {provider : String} {baseUrl : JsString} {base : Url}
    (hbase : confinementBase authority provider baseUrl = .ok base) :
    newUrl authority baseUrl = some base := by
  unfold confinementBase at hbase
  split at hbase
  · cases hbase
  · rename_i found hfound
    dsimp only at hbase
    split at hbase
    · cases hbase
    · split at hbase
      · cases hbase
      · split at hbase
        · cases hbase
        · rw [hfound, Except.ok.inj hbase]

/-- A path that ends in a space is trimmed to one that does not. -/
theorem Ends.spaces_eq_zero_iff {path last : JsString} {front : List JsString}
    {spaces : ℕ} (hends : Ends path front last spaces) :
    spaces = 0 ↔ path.getLast? ≠ some 0x20 := by
  have hpath : path = (front.flatMap (ascii '/' :: ·) ++ ascii '/' :: last) ++
      List.replicate spaces 0x20 := by
    conv_lhs => rw [path_eq_flatMap hends.relative, hends.segments]
    simp
  constructor
  · rintro rfl hspace
    rw [hpath, List.replicate_zero, List.append_nil] at hspace
    rcases List.eq_nil_or_concat last with rfl | ⟨units, unit, rfl⟩
    · rw [List.getLast?_concat] at hspace
      cases hspace
    · rw [List.concat_eq_append, ← List.cons_append, ← List.append_assoc,
        List.getLast?_concat] at hspace
      refine hends.trimmed ?_
      rw [List.concat_eq_append, List.getLast?_concat]
      exact hspace
  · intro hspace
    cases spaces with
    | zero => rfl
    | succ spaces =>
        refine absurd ?_ hspace
        rw [hpath, List.replicate_succ', ← List.append_assoc,
          List.getLast?_concat]

/-- The last segment a path ends with is the one that was read or empty. -/
theorem getLast?_endSegment (buffer : JsString) (path : List JsString) :
    (endSegment buffer path false).getLast? = some [] ∨
      (endSegment buffer path false).getLast? = some buffer := by
  unfold endSegment
  split
  · exact .inl (List.getLast?_concat ..)
  · split
    · exact .inl (List.getLast?_concat ..)
    · exact .inr (List.getLast?_concat ..)

theorem whole_of_forall₂ {originals sent : List JsString}
    (hsame : List.Forall₂ SameCharacters originals sent) :
    ∀ segment ∈ sent, ascii '/' ∉ segment := by
  induction hsame with
  | nil => simp
  | cons hfirst _ ih =>
      intro segment hsegment
      rcases List.mem_cons.mp hsegment with rfl | hlater
      · exact hfirst.whole
      · exact ih segment hlater

theorem forall₂_getLast {front sent : List JsString} {last : JsString}
    (hsame : List.Forall₂ SameCharacters (front ++ [last]) sent) :
    ∃ final, (∃ others, sent = others ++ [final]) ∧ SameCharacters last final := by
  rw [← List.forall₂_reverse_iff, List.reverse_append, List.reverse_singleton,
    List.singleton_append, List.forall₂_cons_left_iff] at hsame
  obtain ⟨final, others, hlast, -, hsent⟩ := hsame
  refine ⟨final, ⟨others.reverse, ?_⟩, hlast⟩
  rw [← List.reverse_reverse sent, hsent, List.reverse_cons]

/-- What an index resolved is what the guarded client sends, exactly for the
paths that do not end in a space and whose surrogates are paired. -/
theorem sentAsValidated_iff {provider : String} {baseUrl : JsString} {base : Url}
    {index : OperationIndex} {method : RestMethod} {path : JsString}
    {matched : OperationMatch} (hreparses : Reparses authority)
    (hbase : confinementBase authority provider baseUrl = .ok base)
    (hresolve : index.resolve method path = .ok matched) :
    SentAsValidated authority provider base path ↔
      path.getLast? ≠ some 0x20 ∧ path.wellFormed = true := by
  obtain ⟨⟨scheme, host, hvalue⟩, hsettled⟩ :=
    newUrl_eq_some (confinementBase_eq_ok hbase)
  obtain ⟨hrelative, hquery, haccepted⟩ := accepted_of_resolve hresolve
  obtain ⟨front, last, spaces, hends⟩ := exists_ends hrelative hquery haccepted
  obtain ⟨url, hurl, horigin, hpath⟩ :=
    newUrl_path hreparses hvalue hsettled hends
  have hparts := settled_baseSegments hsettled
  have hbasePath := basePath_eq hsettled
  have hsegments := hends.segments
  have hencoded : spaces = 0 → url.path = baseSegments base ++
      (segments path).map encodePath := by
    rintro rfl
    have hlast : Accepted last := by
      have hwhole := hends.accepted
      rwa [List.replicate_zero, List.append_nil] at hwhole
    rw [hpath, encodePath, endSegment_ordinary
      (ordinary_of_accepted hlast hends.last), hsegments, List.replicate_zero,
      List.append_nil, List.map_append, List.append_assoc]
    rfl
  have hcharacters : spaces = 0 → ∀ segment ∈ segments path,
      Accepted segment ∧ Readable segment := by
    rintro rfl segment hsegment
    refine ⟨haccepted segment hsegment, ?_⟩
    rw [hsegments] at hsegment
    rcases List.mem_append.mp hsegment with hfront | hlast
    · exact (hends.front segment hfront).2
    · obtain rfl := List.mem_singleton.mp hlast
      rw [List.replicate_zero, List.append_nil]
      exact hends.last
  have hwellFormed : path.wellFormed = (segments path).all JsString.wellFormed := by
    conv_lhs => rw [path_eq_flatMap hrelative]
    exact wellFormed_flatMap_slash _
  rw [← hends.spaces_eq_zero_iff, hwellFormed, List.all_eq_true]
  constructor
  · rintro ⟨other, sent, hconfine, -, hpathname, hsame⟩
    obtain rfl := Option.some.inj (hurl.symm.trans (newUrl_of_confine hconfine))
    have hslashFree : ∀ path : List JsString, Settled path →
        ∀ segment ∈ path, ascii '/' ∉ segment := fun path hpath segment
        hsegment hmem =>
      absurd ((hpath segment hsegment).1 _ hmem).2.1 (by decide)
    have hsentFree := whole_of_forall₂ hsame
    have hsent : url.path = baseSegments base ++ sent := by
      refine flatMap_slash_injective (hslashFree _ (newUrl_eq_some hurl).2)
        (fun segment hsegment => ?_) ?_
      · rcases List.mem_append.mp hsegment with hbase' | hsent
        · exact hslashFree _ hparts segment hbase'
        · exact hsentFree segment hsent
      · rw [List.flatMap_append, ← hbasePath]
        exact hpathname
    have hspaces : spaces = 0 := by
      obtain ⟨final, ⟨others, hfinal⟩, hlast⟩ :=
        forall₂_getLast (hsegments ▸ hsame)
      refine spaces_eq_zero hends.accepted hlast ?_
      rw [hpath] at hsent
      rcases getLast?_endSegment (encodePath last)
        (baseSegments base ++ front.map encodePath) with hnil | hkept
      · left
        rw [hsent, hfinal, ← List.append_assoc, List.getLast?_concat] at hnil
        exact Option.some.inj hnil
      · right
        rw [hsent, hfinal, ← List.append_assoc, List.getLast?_concat] at hkept
        exact Option.some.inj hkept
    refine ⟨hspaces, fun segment hsegment => ?_⟩
    have hmapped : sent = (segments path).map encodePath :=
      List.append_cancel_left (hsent.symm.trans (hencoded hspaces))
    rw [hmapped, List.forall₂_map_right_iff, List.forall₂_same] at hsame
    obtain ⟨haccepted', hreadable⟩ := hcharacters hspaces segment hsegment
    exact (sameCharacters_iff haccepted' hreadable).mp (hsame segment hsegment)
  · rintro ⟨hspaces, hwell⟩
    have hpathname : url.pathname = basePath base ++
        ((segments path).map encodePath).flatMap (ascii '/' :: ·) := by
      rw [pathname, hencoded hspaces, List.flatMap_append, ← hbasePath]
    refine ⟨url, (segments path).map encodePath,
      confine_eq_ok hrelative hquery hurl horigin hpathname, horigin, hpathname,
      ?_⟩
    rw [List.forall₂_map_right_iff, List.forall₂_same]
    intro segment hsegment
    obtain ⟨haccepted', hreadable⟩ := hcharacters hspaces segment hsegment
    exact (sameCharacters_iff haccepted' hreadable).mpr (hwell segment hsegment)

/-! ## One path that is sent as it was validated, and one that is not -/

/-- A parser that knows one host. -/
def exampleAuthority : AuthorityParser := fun scheme host =>
  let name := (JsString.ofAscii "https").map UInt16.toNat
  let text := (JsString.ofAscii "api.example.com").map UInt16.toNat
  if scheme = name ∧ host = text then
    some {
      protocol := JsString.ofAscii "https:"
      origin := JsString.ofAscii "https://api.example.com"
      hostname := JsString.ofAscii "api.example.com"
      username := []
      password := [] }
  else none

theorem reparses_exampleAuthority : Reparses exampleAuthority := by
  intro scheme host value hvalue
  obtain ⟨-, hvalue⟩ := Option.ite_none_right_eq_some.mp hvalue
  obtain rfl := Option.some.inj hvalue
  exact ⟨(JsString.ofAscii "https").map UInt16.toNat,
    (JsString.ofAscii "api.example.com").map UInt16.toNat, _, by decide,
    by decide, by decide, by decide, by decide, rfl, rfl⟩

/-- Two operations that differ by one path parameter. -/
def exampleIndex : OperationIndex where
  operations := [⟨.get, JsString.ofAscii "/v1/customers"⟩,
    ⟨.get, JsString.ofAscii "/v1/customers/\x7bcustomer\x7d"⟩]

theorem sentAsValidated_customer :
    ∃ base matched,
      confinementBase exampleAuthority "Example"
          (JsString.ofAscii "https://api.example.com") = .ok base ∧
        exampleIndex.resolve .get (JsString.ofAscii "/v1/customers/cus_1") =
          .ok matched ∧ matched.row = 1 ∧
        SentAsValidated exampleAuthority "Example" base
          (JsString.ofAscii "/v1/customers/cus_1") := by
  obtain ⟨base, matched, hbase, hresolve, hrow⟩ : ∃ base matched,
      confinementBase exampleAuthority "Example"
          (JsString.ofAscii "https://api.example.com") = .ok base ∧
        exampleIndex.resolve .get (JsString.ofAscii "/v1/customers/cus_1") =
          .ok matched ∧ matched.row = 1 :=
    ⟨_, _, rfl, rfl, rfl⟩
  exact ⟨base, matched, hbase, hresolve, hrow,
    (sentAsValidated_iff reparses_exampleAuthority hbase hresolve).mpr
      ⟨by decide, by decide⟩⟩

/-- A single space fills the parameter, and the request goes to the collection. -/
theorem trailing_space_not_sentAsValidated :
    ∃ base matched,
      confinementBase exampleAuthority "Example"
          (JsString.ofAscii "https://api.example.com") = .ok base ∧
        exampleIndex.resolve .get (JsString.ofAscii "/v1/customers/ ") =
          .ok matched ∧ matched.row = 1 ∧
        ¬ SentAsValidated exampleAuthority "Example" base
          (JsString.ofAscii "/v1/customers/ ") := by
  obtain ⟨base, matched, hbase, hresolve, hrow, hempty, url, hurl, hpathname⟩ :
      ∃ base matched,
        confinementBase exampleAuthority "Example"
            (JsString.ofAscii "https://api.example.com") = .ok base ∧
          exampleIndex.resolve .get (JsString.ofAscii "/v1/customers/ ") =
            .ok matched ∧ matched.row = 1 ∧ basePath base = [] ∧
          ∃ url, confine exampleAuthority "Example" base
              (JsString.ofAscii "/v1/customers/ ") = .ok url ∧
            url.pathname = JsString.ofAscii "/v1/customers/" :=
    ⟨_, _, rfl, rfl, rfl, rfl, _, rfl, rfl⟩
  refine ⟨base, matched, hbase, hresolve, hrow, ?_⟩
  rintro ⟨other, sent, hother, -, hsent, hsame⟩
  obtain rfl := Except.ok.inj (hurl.symm.trans hother)
  have hparts : sent = ["v1", "customers", ""].map JsString.ofAscii := by
    refine flatMap_slash_injective (whole_of_forall₂ hsame) (by decide) ?_
    rw [hempty, List.nil_append] at hsent
    rw [← hsent, hpathname]
    rfl
  obtain ⟨final, ⟨others, hfinal⟩, -, text, htext, hdecoded⟩ :=
    @forall₂_getLast (["v1", "customers"].map JsString.ofAscii) sent
      (JsString.ofAscii " ") hsame
  have hlast : final = [] := by
    have hgetLast := congrArg List.getLast? (hfinal.symm.trans hparts)
    rw [List.getLast?_concat] at hgetLast
    exact Option.some.inj hgetLast
  rw [hlast] at hdecoded
  exact absurd (htext.trans hdecoded.symm) (by decide)

end Connecta.Http
