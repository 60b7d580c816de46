import Mathlib.Data.Finset.Card
import Mathlib.Data.Finset.Filter

/-!
# Change-tested propagation

A visit to a node of a graph, cycles included, changes the heap and says whether
the change has to be passed on; if so, every target of the node is visited in
turn.  The recursion ends when passing on settles a node for good.  What holds
of a whole spread follows from what one visit does.
-/

namespace Connecta.Foundation

/-- A graph of nodes in a heap, with the visit that may pass itself on. -/
structure Propagation (Heap Node : Type*) where
  targets : Heap → Node → List Node
  visit : Heap → Node → Option (Heap × Bool)

namespace Propagation

variable {Heap Node : Type*} (propagation : Propagation Heap Node)

/-- Visit a node and whatever it passes the change on to.  The recursion is as
deep as `fuel`; absent where that was not enough. -/
def spread : ℕ → Heap → Node → Option Heap
  | 0, _, _ => none
  | fuel + 1, heap, node =>
      match propagation.visit heap node with
      | none => none
      | some (later, false) => some later
      | some (later, true) =>
          (propagation.targets later node).foldlM (spread fuel) later

variable {propagation}

/-- The rule for what a spread does: `Rel` relates the heaps around it and
`Meets` holds of its node.  A visit that passes on may break `Rel` for as long
as the targets have not been met. -/
theorem spread_sound (Rel : Heap → Heap → Prop) (Meets : Heap → Node → Prop)
    (hrefl : ∀ heap, Rel heap heap)
    (htrans : ∀ first second third,
      Rel first second → Rel second third → Rel first third)
    (hmeets : ∀ heap later node, Rel heap later → Meets heap node →
      Meets later node)
    (hstop : ∀ heap later node,
      propagation.visit heap node = some (later, false) →
        Rel heap later ∧ Meets later node)
    (hpass : ∀ heap later final node,
      propagation.visit heap node = some (later, true) → Rel later final →
        (∀ target ∈ propagation.targets later node, Meets final target) →
          Rel heap final ∧ Meets final node)
    (fuel : ℕ) {heap final : Heap} {node : Node}
    (hspread : propagation.spread fuel heap node = some final) :
    Rel heap final ∧ Meets final node := by
  induction fuel generalizing heap final node with
  | zero => cases hspread
  | succ fuel ih =>
      have hall : ∀ (targets : List Node) (later : Heap),
          targets.foldlM (propagation.spread fuel) later = some final →
            Rel later final ∧ ∀ target ∈ targets, Meets final target := by
        intro targets
        induction targets with
        | nil =>
            intro later hfold
            obtain rfl := Option.some.inj hfold
            exact ⟨hrefl later, fun _ hmem => (List.not_mem_nil hmem).elim⟩
        | cons target others ihtargets =>
            intro later hfold
            rw [List.foldlM_cons] at hfold
            obtain ⟨next, hnext, hothers⟩ := Option.bind_eq_some_iff.mp hfold
            obtain ⟨hfirst, hmet⟩ := ih hnext
            obtain ⟨hrest, hmets⟩ := ihtargets next hothers
            refine ⟨htrans _ _ _ hfirst hrest, fun other hmem => ?_⟩
            rcases List.mem_cons.mp hmem with rfl | hmem
            · exact hmeets _ _ _ hrest hmet
            · exact hmets other hmem
      rw [spread] at hspread
      split at hspread
      · cases hspread
      · rename_i later hvisit
        obtain rfl := Option.some.inj hspread
        exact hstop _ _ _ hvisit
      · rename_i later hvisit
        obtain ⟨hrel, hmets⟩ := hall _ _ hspread
        exact hpass _ _ _ _ hvisit hrel hmets

/-- The nodes a spread could still pass through. -/
def pending (nodes : Finset Node) (Done : Heap → Node → Prop)
    [∀ heap, DecidablePred (Done heap)] (heap : Heap) : ℕ :=
  (nodes.filter fun node => ¬ Done heap node).card

theorem pending_le {nodes : Finset Node} {Done : Heap → Node → Prop}
    [∀ heap, DecidablePred (Done heap)] {heap later : Heap}
    (hdone : ∀ node, Done heap node → Done later node) :
    pending nodes Done later ≤ pending nodes Done heap := by
  refine Finset.card_le_card fun node hmem => ?_
  rw [Finset.mem_filter] at hmem ⊢
  exact ⟨hmem.1, fun hnode => hmem.2 (hdone node hnode)⟩

theorem pending_lt {nodes : Finset Node} {Done : Heap → Node → Prop}
    [∀ heap, DecidablePred (Done heap)] {heap later : Heap} {node : Node}
    (hnode : node ∈ nodes)
    (hdone : ∀ other, Done heap other → Done later other)
    (hopen : ¬ Done heap node) (hclosed : Done later node) :
    pending nodes Done later < pending nodes Done heap := by
  refine Finset.card_lt_card ⟨fun other hmem => ?_, fun hsub => ?_⟩
  · rw [Finset.mem_filter] at hmem ⊢
    exact ⟨hmem.1, fun hother => hmem.2 (hdone other hother)⟩
  · have hmem := hsub (Finset.mem_filter.mpr ⟨hnode, hopen⟩)
    exact (Finset.mem_filter.mp hmem).2 hclosed

/-- The rule for termination: a visit that passes on settles its node, and a
settled node stays settled, so fuel for the unsettled nodes is enough. -/
theorem spread_isSome (propagation : Propagation Heap Node)
    (nodes : Finset Node) (Valid : Heap → Prop)
    (Done : Heap → Node → Prop) [∀ heap, DecidablePred (Done heap)]
    (hvisit : ∀ heap node, Valid heap → node ∈ nodes →
      ∃ later passes, propagation.visit heap node = some (later, passes) ∧
        Valid later ∧ (∀ other, Done heap other → Done later other) ∧
          (passes = true → ¬ Done heap node ∧ Done later node))
    (htargets : ∀ heap node, Valid heap →
      ∀ target ∈ propagation.targets heap node, target ∈ nodes)
    (fuel : ℕ) {heap : Heap} {node : Node} (hvalid : Valid heap)
    (hnode : node ∈ nodes) (hfuel : pending nodes Done heap < fuel) :
    ∃ final, propagation.spread fuel heap node = some final ∧ Valid final ∧
      ∀ other, Done heap other → Done final other := by
  induction fuel generalizing heap node with
  | zero => omega
  | succ fuel ih =>
      have hall : ∀ (targets : List Node) (later : Heap), Valid later →
          (∀ target ∈ targets, target ∈ nodes) →
          pending nodes Done later < fuel →
            ∃ final, targets.foldlM (propagation.spread fuel) later =
              some final ∧ Valid final ∧
                ∀ other, Done later other → Done final other := by
        intro targets
        induction targets with
        | nil => exact fun later hlater _ _ => ⟨later, rfl, hlater, fun _ => id⟩
        | cons target others ihtargets =>
            intro later hlater hmem hless
            obtain ⟨next, hnext, hvalid', hdone⟩ :=
              ih hlater (hmem target List.mem_cons_self) hless
            obtain ⟨final, hfinal, hvalid'', hdone'⟩ := ihtargets next hvalid'
              (fun other hother => hmem other (List.mem_cons_of_mem _ hother))
              ((pending_le hdone).trans_lt hless)
            refine ⟨final, ?_, hvalid'', fun other => hdone' other ∘ hdone other⟩
            rw [List.foldlM_cons, hnext]
            exact hfinal
      obtain ⟨later, passes, heq, hlater, hdone, hpasses⟩ :=
        hvisit heap node hvalid hnode
      rw [spread, heq]
      cases passes with
      | false => exact ⟨later, rfl, hlater, hdone⟩
      | true =>
          obtain ⟨hopen, hclosed⟩ := hpasses rfl
          have hless := pending_lt hnode hdone hopen hclosed
          obtain ⟨final, hfinal, hvalid', hdone'⟩ :=
            hall _ later hlater (htargets later node hlater) (by omega)
          exact ⟨final, hfinal, hvalid', fun other => hdone' other ∘ hdone other⟩

/-- The rule for termination in a forest: every target ranks below its node. -/
theorem spread_isSome_of_rank (propagation : Propagation Heap Node) (rank : Node → ℕ)
    (Valid : Heap → Node → Prop)
    (hvisit : ∀ heap node, Valid heap node →
      ∃ later passes, propagation.visit heap node = some (later, passes) ∧
        (∀ other, Valid heap other → Valid later other) ∧
          ∀ target ∈ propagation.targets later node,
            Valid later target ∧ rank target < rank node)
    (fuel : ℕ) {heap : Heap} {node : Node} (hvalid : Valid heap node)
    (hfuel : rank node < fuel) :
    ∃ final, propagation.spread fuel heap node = some final ∧
      ∀ other, Valid heap other → Valid final other := by
  induction fuel generalizing heap node with
  | zero => omega
  | succ fuel ih =>
      have hall : ∀ (targets : List Node) (later : Heap),
          (∀ target ∈ targets, Valid later target ∧ rank target < fuel) →
            ∃ final, targets.foldlM (propagation.spread fuel) later = some final ∧
              ∀ other, Valid later other → Valid final other := by
        intro targets
        induction targets with
        | nil => exact fun later _ => ⟨later, rfl, fun _ => id⟩
        | cons target others ihtargets =>
            intro later hmem
            obtain ⟨htarget, hrank⟩ := hmem target List.mem_cons_self
            obtain ⟨next, hnext, hkept⟩ := ih htarget hrank
            obtain ⟨final, hfinal, hkept'⟩ := ihtargets next fun other hother =>
              ⟨hkept other (hmem other (List.mem_cons_of_mem _ hother)).1,
                (hmem other (List.mem_cons_of_mem _ hother)).2⟩
            refine ⟨final, ?_, fun other => hkept' other ∘ hkept other⟩
            rw [List.foldlM_cons, hnext]
            exact hfinal
      obtain ⟨later, passes, heq, hkept, htargets⟩ := hvisit heap node hvalid
      rw [spread, heq]
      cases passes with
      | false => exact ⟨later, rfl, hkept⟩
      | true =>
          obtain ⟨final, hfinal, hkept'⟩ := hall _ later fun target hmem =>
            ⟨(htargets target hmem).1, by
              have := (htargets target hmem).2
              omega⟩
          exact ⟨final, hfinal, fun other => hkept' other ∘ hkept other⟩

end Propagation

end Connecta.Foundation
