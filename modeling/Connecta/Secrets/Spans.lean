import Mathlib.Data.List.GetD
import Connecta.Foundation.Bisection
import Connecta.Runtime.Utf16

/-!
# Spans

Each scan of a view merges the spans it finds as they arrive, ends ascending,
and drops one that lies wholly inside a placeholder the text already holds.
-/

namespace Connecta.Secrets

open Connecta.Runtime

/-- Where a match starts and where it ends. -/
abbrev Span := ℕ × ℕ

def redacted : JsString := JsString.ofAscii "[redacted]"

/-- The dropped spans of `push`: the search finds the last mark at or before
the span's start. -/
def insidePlaceholder (marks : List ℕ) (start stop : ℕ) : Bool :=
  let low := Bisection.search (fun middle => marks.getD middle 0 ≤ start) marks.length
  low ≠ 0 && stop ≤ marks.getD (low - 1) 0 + redacted.length

/-- The spans of one view, latest first; those of other views are left alone. -/
def merge (start stop : ℕ) : List Span → List Span
  | [] => [(start, stop)]
  | last :: earlier =>
      if start ≤ last.2 then merge (min start last.1) stop earlier
      else (start, stop) :: last :: earlier

def push (spans : List Span) (start stop : ℕ) (marks : Option (List ℕ)) :
    List Span :=
  if marks.any (insidePlaceholder · start stop) then spans
  else merge start stop spans

/-! ## Coverage -/

def Covered (spans : List Span) (start stop : ℕ) : Prop :=
  ∃ span ∈ spans, span.1 ≤ start ∧ stop ≤ span.2

/-- No span of the view ends past `bound`. -/
def EndsBy (bound : ℕ) (spans : List Span) : Prop :=
  ∀ span ∈ spans, span.2 ≤ bound

/-- The text at a mark is a placeholder the range lies wholly inside. -/
def InPlaceholder (marks : Option (List ℕ)) (start stop : ℕ) : Prop :=
  ∃ places ∈ marks, ∃ mark ∈ places, mark ≤ start ∧ stop ≤ mark + redacted.length

theorem Covered.mono {spans : List Span} {start stop start' stop' : ℕ}
    (hcovered : Covered spans start stop) (hstart : start ≤ start')
    (hstop : stop' ≤ stop) : Covered spans start' stop' := by
  obtain ⟨span, hmem, hfrom, hto⟩ := hcovered
  exact ⟨span, hmem, hfrom.trans hstart, hstop.trans hto⟩

theorem EndsBy.mono {bound bound' : ℕ} {spans : List Span}
    (hends : EndsBy bound spans) (hle : bound ≤ bound') : EndsBy bound' spans :=
  fun span hmem => (hends span hmem).trans hle

theorem endsBy_nil (bound : ℕ) : EndsBy bound [] := fun _ hmem => by cases hmem

theorem merge_covers (start stop : ℕ) (spans : List Span) :
    Covered (merge start stop spans) start stop := by
  induction spans generalizing start with
  | nil => exact ⟨(start, stop), List.mem_singleton_self _, le_rfl, le_rfl⟩
  | cons last earlier ih =>
      rw [merge]
      split_ifs
      · exact (ih (min start last.1)).mono (min_le_left _ _) le_rfl
      · exact ⟨(start, stop), List.mem_cons_self, le_rfl, le_rfl⟩

/-- What earlier spans cover stays covered, their ends being no later. -/
theorem Covered.merge {spans : List Span} {start stop start' stop' : ℕ}
    (hends : EndsBy stop spans) (hcovered : Covered spans start' stop') :
    Covered (merge start stop spans) start' stop' := by
  induction spans generalizing start with
  | nil =>
      obtain ⟨span, hmem, -⟩ := hcovered
      cases hmem
  | cons last earlier ih =>
      obtain ⟨span, hmem, hfrom, hto⟩ := hcovered
      have hearlier : EndsBy stop earlier := fun span hspan =>
        hends span (List.mem_cons_of_mem _ hspan)
      rw [Secrets.merge]
      split_ifs
      · rcases List.mem_cons.mp hmem with rfl | hmem
        · apply (merge_covers (min start span.1) stop earlier).mono
          · exact (min_le_right _ _).trans hfrom
          · exact hto.trans (hends span List.mem_cons_self)
        · exact ih hearlier ⟨span, hmem, hfrom, hto⟩
      · exact ⟨span, List.mem_cons_of_mem _ hmem, hfrom, hto⟩

theorem EndsBy.merge {bound start stop : ℕ} {spans : List Span}
    (hends : EndsBy bound spans) (hstop : stop ≤ bound) :
    EndsBy bound (merge start stop spans) := by
  induction spans generalizing start with
  | nil =>
      intro span hmem
      obtain rfl := List.mem_singleton.mp hmem
      exact hstop
  | cons last earlier ih =>
      have hearlier : EndsBy bound earlier := fun span hspan =>
        hends span (List.mem_cons_of_mem _ hspan)
      rw [Secrets.merge]
      split_ifs
      · exact ih hearlier
      · intro span hmem
        rcases List.mem_cons.mp hmem with rfl | hmem
        · exact hstop
        · exact hends span hmem

/-- A dropped span lies inside a placeholder. -/
theorem inPlaceholder_of_inside {marks : List ℕ} {start stop : ℕ}
    (hinside : insidePlaceholder marks start stop = true) :
    InPlaceholder (some marks) start stop := by
  simp only [insidePlaceholder, Bool.and_eq_true, decide_eq_true_eq] at hinside
  obtain ⟨hfound, hstop⟩ := hinside
  have hsearch := Bisection.search_stop
    (fun middle => decide (marks.getD middle 0 ≤ start)) marks.length
  have hstart := of_decide_eq_true (hsearch.last (Nat.pos_of_ne_zero hfound))
  have hlt := (Nat.sub_one_lt hfound).trans_le hsearch.upper
  refine ⟨marks, rfl, marks.get ⟨_, hlt⟩, List.get_mem _ _, ?_, ?_⟩
  · rwa [List.getD_eq_getElem _ _ hlt] at hstart
  · rwa [List.getD_eq_getElem _ _ hlt] at hstop

theorem push_covers (spans : List Span) (start stop : ℕ) (marks : Option (List ℕ)) :
    Covered (push spans start stop marks) start stop ∨
      InPlaceholder marks start stop := by
  rw [push]
  split_ifs with hinside
  · cases marks with
    | none => cases hinside
    | some marks => exact .inr (inPlaceholder_of_inside hinside)
  · exact .inl (merge_covers start stop spans)

theorem Covered.push {spans : List Span} {start stop start' stop' : ℕ}
    {marks : Option (List ℕ)} (hends : EndsBy stop spans)
    (hcovered : Covered spans start' stop') :
    Covered (push spans start stop marks) start' stop' := by
  rw [Secrets.push]
  split_ifs
  · exact hcovered
  · exact hcovered.merge hends

theorem EndsBy.push {bound start stop : ℕ} {spans : List Span}
    {marks : Option (List ℕ)} (hends : EndsBy bound spans) (hstop : stop ≤ bound) :
    EndsBy bound (push spans start stop marks) := by
  rw [Secrets.push]
  split_ifs
  · exact hends
  · exact hends.merge hstop

end Connecta.Secrets
