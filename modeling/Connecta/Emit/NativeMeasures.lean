import Connecta.Emit.NativeWalks

/-!
# The measure of a native value

A value without a fault has one text, which is measured where it is small, shallow and of
few parts, and refused elsewhere.
-/

namespace Connecta.Emit

open Connecta.Foundation
open Connecta.Runtime
open Connecta.Results

variable {size : ℕ}

/-! ## Depths -/

section Depths

variable {read read' : JsValue size → Option Json} {bound : ℕ}

theorem elementDepth_le (hread : ∀ item json, read item = some json → depth json < bound)
    {slots : List (Option (Slot size))} {jsons : List Json}
    (hjsons : plainElements read slots = some jsons) : elementDepth jsons ≤ bound := by
  induction slots generalizing jsons with
  | nil =>
      obtain rfl := Option.some.inj hjsons
      exact Nat.zero_le _
  | cons slot rest ih =>
      obtain ⟨item, -, hjsons⟩ := Option.bind_eq_some_iff.mp hjsons
      obtain ⟨json, hjson, hjsons⟩ := Option.bind_eq_some_iff.mp hjsons
      obtain ⟨others, hothers, hjsons⟩ := Option.bind_eq_some_iff.mp hjsons
      obtain rfl := Option.some.inj hjsons
      exact max_le (hread item json hjson) (ih hothers)

theorem memberDepth_le (hread : ∀ item json, read item = some json → depth json < bound)
    {entries : List (JsString × Property size)} {members : List (JsString × Json)}
    (hmembers : plainMembers read entries = some members) : memberDepth members ≤ bound := by
  induction entries generalizing members with
  | nil =>
      obtain rfl := Option.some.inj hmembers
      exact Nat.zero_le _
  | cons entry rest ih =>
      obtain ⟨key, slot, enumerable⟩ := entry
      cases enumerable with
      | false => exact ih hmembers
      | true =>
          cases slot with
          | accessor => exact absurd hmembers nofun
          | data value =>
              cases value with
              | undefined => exact ih hmembers
              | _ =>
                  obtain ⟨json, hjson, hmembers⟩ := Option.bind_eq_some_iff.mp hmembers
                  obtain ⟨others, hothers, hmembers⟩ := Option.bind_eq_some_iff.mp hmembers
                  obtain rfl := Option.some.inj hmembers
                  exact max_le (hread _ json hjson) (ih hothers)

/-- Elements within a depth are read alike where their values within it are. -/
theorem plainElements_within
    (hread : ∀ item json, read item = some json → depth json < bound → read' item = some json)
    {slots : List (Option (Slot size))} {jsons : List Json}
    (hjsons : plainElements read slots = some jsons) (hdepth : elementDepth jsons ≤ bound) :
    plainElements read' slots = some jsons := by
  induction slots generalizing jsons with
  | nil => exact hjsons
  | cons slot rest ih =>
      obtain ⟨item, hitem, hjsons⟩ := Option.bind_eq_some_iff.mp hjsons
      obtain ⟨json, hjson, hjsons⟩ := Option.bind_eq_some_iff.mp hjsons
      obtain ⟨others, hothers, hjsons⟩ := Option.bind_eq_some_iff.mp hjsons
      obtain rfl := Option.some.inj hjsons
      rw [elementDepth, max_le_iff] at hdepth
      rw [plainElements, hitem]
      simp only [Option.bind_eq_bind, Option.bind_some, hread item json hjson hdepth.1,
        ih hothers hdepth.2]
      rfl

theorem plainMembers_within
    (hread : ∀ item json, read item = some json → depth json < bound → read' item = some json)
    {entries : List (JsString × Property size)} {members : List (JsString × Json)}
    (hmembers : plainMembers read entries = some members)
    (hdepth : memberDepth members ≤ bound) : plainMembers read' entries = some members := by
  induction entries generalizing members with
  | nil => exact hmembers
  | cons entry rest ih =>
      obtain ⟨key, slot, enumerable⟩ := entry
      cases enumerable with
      | false => exact ih hmembers hdepth
      | true =>
          cases slot with
          | accessor => cases hmembers
          | data value =>
              cases value with
              | undefined => exact ih hmembers hdepth
              | _ =>
                  obtain ⟨json, hjson, hmembers⟩ := Option.bind_eq_some_iff.mp hmembers
                  obtain ⟨others, hothers, hmembers⟩ := Option.bind_eq_some_iff.mp hmembers
                  obtain rfl := Option.some.inj hmembers
                  rw [memberDepth, max_le_iff] at hdepth
                  rw [plainMembers]
                  · simp only [Option.bind_eq_bind, Option.bind_some,
                      hread _ json hjson hdepth.1, ih hothers hdepth.2]
                    rfl
                  · simp

variable {heap : Heap size} {active : Finset (Fin size)} {value : JsValue size} {json : Json}
  {levels : ℕ}

/-- What is read on some levels is less deep than they are many. -/
theorem depth_lt_levels (hplain : plain heap levels active value = some json) :
    depth json < levels := by
  induction levels generalizing active value json with
  | zero => exact absurd hplain nofun
  | succ levels ih =>
      cases value with
      | undefined | function | symbol | bigint => exact absurd hplain nofun
      | null | bool | string =>
          obtain rfl := Option.some.inj hplain
          exact Nat.succ_pos _
      | number value =>
          obtain rfl := Option.some.inj hplain
          cases value <;> exact Nat.succ_pos _
      | object address =>
          obtain ⟨-, ⟨slots, jsons, -, rfl, hjsons⟩ | ⟨members, -, rfl, hmembers⟩⟩ :=
            plain_object hplain
          · exact Nat.lt_succ_of_le (elementDepth_le (fun _ _ hjson => ih hjson) hjsons)
          · exact Nat.lt_succ_of_le (memberDepth_le (fun _ _ hjson => ih hjson) hmembers)

/-- As many levels as a value is deep read it. -/
theorem plain_of_depth (hplain : plain heap levels active value = some json) {levels' : ℕ}
    (hdepth : depth json < levels') : plain heap levels' active value = some json := by
  induction levels generalizing active value json levels' with
  | zero => exact absurd hplain nofun
  | succ levels ih =>
      cases levels' with
      | zero => exact absurd hdepth (Nat.not_lt_zero _)
      | succ levels' =>
          cases value with
          | undefined | function | symbol | bigint => exact absurd hplain nofun
          | null | bool | string | number => exact hplain
          | object address =>
              have hchild (item : JsValue size) (json : Json)
                  (hjson : plain heap levels (insert address active) item = some json)
                  (hless : depth json < levels') :
                  plain heap levels' (insert address active) item = some json := ih hjson hless
              obtain ⟨⟨hactive, hordinary, hhooked⟩, hread⟩ := plain_object hplain
              have hsound : ¬ (address ∈ active ∨ (heap address).ordinary = false ∨
                  (heap address).hooked = true) := by
                simp [hactive, hordinary, hhooked]
              rw [plain, if_neg hsound]
              rcases hread with ⟨slots, jsons, helements, rfl, hjsons⟩ |
                ⟨members, helements, rfl, hmembers⟩
              · rw [depth, Nat.lt_succ_iff] at hdepth
                rw [helements]
                dsimp only
                rw [plainElements_within hchild hjsons hdepth]
                rfl
              · rw [depth, Nat.lt_succ_iff] at hdepth
                rw [helements]
                dsimp only
                rw [plainMembers_within hchild hmembers hdepth]
                rfl

end Depths

/-! ## The measure -/

section Measure

variable {heap : Heap size} {value : JsValue size}

/-- The text of a value without a fault. -/
def Text (heap : Heap size) (value : JsValue size) (json : Json) : Prop :=
  plain heap (size + 1) ∅ value = some json

theorem text_or_faulty (heap : Heap size) (value : JsValue size) :
    (∃ json, Text heap value json) ∨ Faulty heap ∅ value :=
  plain_or_faulty (by rw [Finset.card_empty]; omega)

theorem jsonStringify_of_text {json : Json} (htext : Text heap value json) :
    jsonStringify heap value = .text json :=
  serialize_of_plain htext

/-- The walk measures a value of at most `64` levels. -/
theorem plain_iff_text {json : Json} :
    plain heap 65 ∅ value = some json ↔ Text heap value json ∧ depth json ≤ 64 := by
  constructor
  · intro hplain
    have hdepth := depth_lt_levels hplain
    refine ⟨?_, Nat.lt_succ_iff.mp hdepth⟩
    rcases text_or_faulty heap value with ⟨json', htext⟩ | hfaulty
    · have hwhole := plain_of_depth hplain (hdepth.trans_le (le_max_left 65 (size + 1)))
      have hlevels := (depth_lt_levels htext).trans_le (le_max_right 65 (size + 1))
      rw [plain_of_depth htext hlevels] at hwhole
      obtain rfl := Option.some.inj hwhole
      exact htext
    · rw [plain_of_faulty hfaulty] at hplain
      exact absurd hplain (by simp)
  · rintro ⟨htext, hdepth⟩
    exact plain_of_depth htext (Nat.lt_succ_iff.mpr hdepth)

/-- Where a value with this text is measured. -/
def Measurable (maxBytes : ℕ) (json : Json) : Prop :=
  json.bytes ≤ maxBytes ∧ nodes json ≤ maxNodes maxBytes ∧ depth json ≤ 64

variable {maxBytes : ℕ} {copy : Bool}

theorem boundedNativeValue_of_text {json : Json} (htext : Text heap value json) :
    (Measurable maxBytes json → ∃ copied,
      boundedNativeValue maxBytes heap value copy = some (copied, json.bytes) ∧
        (copy = true → copied.json = some json)) ∧
      (¬ Measurable maxBytes json → boundedNativeValue maxBytes heap value copy = none) := by
  have hanswers := @visit_answers size maxBytes heap copy 65 ∅ value ⟨0, 0, ∅⟩
    ⟨Nat.zero_le _, Nat.zero_le _, rfl⟩
  have hfits : Fits maxBytes (⟨0, 0, ∅⟩ : Walk size) json.bytes (nodes json) ↔
      json.bytes ≤ maxBytes ∧ nodes json ≤ maxNodes maxBytes := by
    rw [Fits, Nat.zero_add, Nat.zero_add]
  by_cases hdepth : depth json ≤ 64
  · obtain ⟨hmeasured, hrefused⟩ := hanswers.2 json (plain_iff_text.mpr ⟨htext, hdepth⟩)
    rw [hfits] at hmeasured hrefused
    constructor
    · rintro ⟨hbytes, hnodes, -⟩
      obtain ⟨copied, hvisit, hcopied⟩ := hmeasured ⟨hbytes, hnodes⟩
      refine ⟨copied, ?_, hcopied⟩
      rw [boundedNativeValue, hvisit, Option.map_some, Walk.after, Nat.zero_add]
    · intro hlarge
      rw [boundedNativeValue, hrefused fun hsmall => hlarge ⟨hsmall.1, hsmall.2, hdepth⟩,
        Option.map_none]
  · have hplain : plain heap 65 ∅ value = none := by
      rw [Option.eq_none_iff_forall_ne_some]
      intro json' hplain
      obtain ⟨htext', hdepth'⟩ := plain_iff_text.mp hplain
      obtain rfl := Option.some.inj (htext.symm.trans htext')
      exact hdepth hdepth'
    refine ⟨fun hsmall => absurd hsmall.2.2 hdepth, fun _ => ?_⟩
    rw [boundedNativeValue, hanswers.1 hplain, Option.map_none]

theorem boundedNativeValue_of_faulty (hfaulty : Faulty heap ∅ value) :
    boundedNativeValue maxBytes heap value copy = none := by
  have hanswers := @visit_answers size maxBytes heap copy 65 ∅ value ⟨0, 0, ∅⟩
    ⟨Nat.zero_le _, Nat.zero_le _, rfl⟩
  rw [boundedNativeValue, hanswers.1 (plain_of_faulty hfaulty 65), Option.map_none]

end Measure

end Connecta.Emit
