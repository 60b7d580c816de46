import Connecta.Secrets.Sets

/-!
# Inclusion is complete

Storing a form raises what each set it reaches holds of that form to a join, and
marking lowers a bound.  Both are change-tested, so a set that changed has
passed the change to every recipient by the time the call is over.  One
inclusion is therefore complete between any two calls, and inclusions compose.
-/

namespace Connecta.Secrets

open Connecta.Foundation
open Connecta.Runtime
open Connecta.Transition

theorem strength_le_strength {kind stronger : Kind} {frame wider : Extent} :
    strength kind wider ≤ strength stronger frame ↔
      kind ≤ stronger ∧ frame ≤ wider := by
  rw [strength, strength, WithBot.coe_le_coe, Prod.mk_le_mk,
    OrderDual.toDual_le_toDual]

theorem strength_sup (kind other : Kind) (frame wider : Extent) :
    strength kind wider ⊔ strength other frame =
      strength (max kind other) (min frame wider) := by
  rw [min_comm]
  exact (WithBot.coe_sup _ _).symm

theorem strength_ne_bot (kind : Kind) (frame : Extent) :
    strength kind frame ≠ ⊥ := WithBot.coe_ne_bot

namespace SentSecrets

variable {set : SentSecrets} {registration : Registration}

theorem held_of_some {form : JsString} {kind : Kind}
    (hform : set.forms.get? form = some kind) :
    set.held form = strength kind (set.frameOf form) := by
  rw [held, hform]

theorem held_of_none {form : JsString} (hform : set.forms.get? form = none) :
    set.held form = ⊥ := by
  rw [held, hform]

/-- A store finds nothing to do exactly where the set already holds the form as
strongly. -/
theorem settled_iff : set.settled registration = true ↔
    registration.strength ≤ set.held registration.form := by
  rcases hform : set.forms.get? registration.form with _ | kind
  · rw [held_of_none hform, Registration.strength]
    simp [settled, hform, strength_ne_bot]
  · rw [held_of_some hform, Registration.strength, strength_le_strength]
    simp [settled, hform, priorFrame]

theorem frameOf_hold (form : JsString) :
    (set.hold registration).frameOf form =
      if form = registration.form then
        min registration.frame (set.priorFrame registration.form)
      else set.frameOf form := by
  simp only [frameOf, hold]
  split
  · rename_i hzero
    rw [OrderedMap.get?_delete]
    split
    · rw [hzero]
      rfl
    · rfl
  · rw [OrderedMap.get?_set]
    split
    · rfl
    · rfl

/-- Storing joins the registration into what is held of its form. -/
theorem held_hold (form : JsString) :
    (set.hold registration).held form =
      if form = registration.form then
        set.held form ⊔ registration.strength
      else set.held form := by
  by_cases hsame : form = registration.form
  · subst hsame
    rw [if_pos rfl]
    have hstored : (set.hold registration).forms.get? registration.form = some _ :=
      OrderedMap.get?_set_self _ _ _
    rw [held_of_some hstored, frameOf_hold, if_pos rfl, Registration.strength]
    rcases hform : set.forms.get? registration.form with _ | kind
    · rw [held_of_none hform, bot_sup_eq]
      simp [priorFrame, hform]
    · rw [held_of_some hform, strength_sup]
      simp [priorFrame, hform]
  · rw [if_neg hsame]
    have hkept : (set.hold registration).forms.get? form =
        set.forms.get? form := OrderedMap.get?_set_of_ne _ _ hsame
    unfold held
    rw [hkept, frameOf_hold, if_neg hsame]

end SentSecrets

namespace Heap

@[simp]
theorem update_size (heap : Heap) (id : ℕ) (set : SentSecrets) :
    (heap.update id set).size = heap.size := rfl

@[simp]
theorem update_sets_self (heap : Heap) (id : ℕ) (set : SentSecrets) :
    (heap.update id set).sets id = set := by
  simp [update]

theorem update_sets_of_ne (heap : Heap) {id other : ℕ} (set : SentSecrets)
    (hother : other ≠ id) : (heap.update id set).sets other = heap.sets other := by
  simp [update, hother]

/-- A field the new set shares is the same everywhere. -/
theorem update_same {Field : Type*} (field : SentSecrets → Field) {heap : Heap}
    {id : ℕ} {set : SentSecrets} (hset : field set = field (heap.sets id))
    (other : ℕ) :
    field ((heap.update id set).sets other) = field (heap.sets other) := by
  by_cases hother : other = id
  · subst hother
    rw [update_sets_self, hset]
  · rw [update_sets_of_ne heap set hother]

/-! ## What calls do to the graph -/

/-- Every call keeps the inclusions and only lowers bounds, passing each lower
bound on. -/
structure Lowers (before after : Heap) : Prop where
  size : after.size = before.size
  recipients : ∀ id, after.recipients id = before.recipients id
  unmatched : ∀ id, (after.sets id).unmatched ≤ (before.sets id).unmatched
  lowered : ∀ id, (after.sets id).unmatched ≠ (before.sets id).unmatched →
    ∀ target ∈ before.recipients id,
      (after.sets target).unmatched ≤ (after.sets id).unmatched

theorem Lowers.refl (heap : Heap) : Lowers heap heap :=
  ⟨rfl, fun _ => rfl, fun _ => le_rfl, fun _ hchanged => absurd rfl hchanged⟩

theorem Lowers.trans {first second third : Heap} (hleft : Lowers first second)
    (hright : Lowers second third) : Lowers first third where
  size := hright.size.trans hleft.size
  recipients id := (hright.recipients id).trans (hleft.recipients id)
  unmatched id := (hright.unmatched id).trans (hleft.unmatched id)
  lowered id hchanged target htarget := by
    by_cases hlast : (third.sets id).unmatched = (second.sets id).unmatched
    · rw [hlast] at hchanged ⊢
      exact (hright.unmatched target).trans
        (hleft.lowered id hchanged target htarget)
    · rw [← hleft.recipients] at htarget
      exact hright.lowered id hlast target htarget

/-- Marking changes no form. -/
structure Marks (before after : Heap) : Prop where
  lowers : Lowers before after
  forms : ∀ id, (after.sets id).forms = (before.sets id).forms
  frames : ∀ id, (after.sets id).frames = (before.sets id).frames

theorem Marks.held {before after : Heap} (hmarks : Marks before after) (id : ℕ)
    (form : JsString) : (after.sets id).held form = (before.sets id).held form := by
  unfold SentSecrets.held SentSecrets.frameOf
  rw [hmarks.forms, hmarks.frames]

theorem Marks.refl (heap : Heap) : Marks heap heap :=
  ⟨.refl heap, fun _ => rfl, fun _ => rfl⟩

theorem Marks.trans {first second third : Heap} (hleft : Marks first second)
    (hright : Marks second third) : Marks first third :=
  ⟨hleft.lowers.trans hright.lowers,
    fun id => (hright.forms id).trans (hleft.forms id),
    fun id => (hright.frames id).trans (hleft.frames id)⟩

/-- `unregistered` reaches its set and everything the change passes through. -/
theorem marks_unregistered {heap final : Heap} {id : ℕ} {length : Extent}
    (hcall : heap.unregistered id length = some final) :
    Marks heap final ∧ (final.sets id).unmatched ≤ length := by
  refine Propagation.spread_sound Marks
    (fun heap id => (heap.sets id).unmatched ≤ length) Marks.refl
    (fun _ _ _ => Marks.trans) ?_ ?_ ?_ (heap.size + 1) hcall
  · intro heap later node hmarks hnode
    exact (hmarks.lowers.unmatched node).trans hnode
  · intro heap later node hvisit
    simp only [marking, mark] at hvisit
    split at hvisit
    · rename_i hlow
      obtain ⟨rfl, -⟩ := Prod.mk.inj (Option.some.inj hvisit)
      exact ⟨.refl heap, hlow⟩
    · cases (Prod.mk.inj (Option.some.inj hvisit)).2
  · intro heap later final node hvisit hmarks htargets
    simp only [marking, mark] at hvisit
    split at hvisit
    · cases (Prod.mk.inj (Option.some.inj hvisit)).2
    · rename_i hhigh
      obtain ⟨rfl, -⟩ := Prod.mk.inj (Option.some.inj hvisit)
      set marked : SentSecrets := { heap.sets node with
        unmatched := length, revision := (heap.sets node).revision + 1 }
        with hmarked
      have hlow : (final.sets node).unmatched ≤ length := by
        have hless := hmarks.lowers.unmatched node
        rwa [update_sets_self] at hless
      have hrecipients : ∀ other, (heap.update node marked).recipients other =
          heap.recipients other := update_same SentSecrets.recipients rfl
      refine ⟨⟨⟨hmarks.lowers.size,
        fun other => (hmarks.lowers.recipients other).trans (hrecipients other),
        fun other => ?_, fun other hchanged target htarget => ?_⟩,
        fun other => (hmarks.forms other).trans
          (update_same SentSecrets.forms (by rfl) other),
        fun other => (hmarks.frames other).trans
          (update_same SentSecrets.frames (by rfl) other)⟩, hlow⟩
      · by_cases hother : other = node
        · subst hother
          exact hlow.trans (not_le.mp hhigh).le
        · have hless := hmarks.lowers.unmatched other
          rwa [update_sets_of_ne heap marked hother] at hless
      · have hmem : target ∈ (heap.update node marked).recipients other := by
          rwa [hrecipients]
        by_cases hsame : (final.sets other).unmatched =
            ((heap.update node marked).sets other).unmatched
        · by_cases hother : other = node
          · subst hother
            rw [hsame, update_sets_self]
            exact htargets target hmem
          · rw [update_sets_of_ne heap marked hother] at hsame
            exact absurd hsame hchanged
        · exact hmarks.lowers.lowered other hsame target hmem

/-- The set holds the registration's form as strongly, or every string long
enough to contain the form is unmatched. -/
def Meets (registration : Registration) (heap : Heap) (id : ℕ) : Prop :=
  registration.strength ≤ (heap.sets id).held registration.form ∨
    (heap.sets id).unmatched ≤ registration.form.length

/-- Storing touches one form, by joining, and what changed was passed on. -/
structure Stores (registration : Registration) (before after : Heap) : Prop where
  lowers : Lowers before after
  other : ∀ id form, form ≠ registration.form →
    (after.sets id).held form = (before.sets id).held form
  joined : ∀ id, (after.sets id).held registration.form =
      (before.sets id).held registration.form ∨
    (after.sets id).held registration.form =
      (before.sets id).held registration.form ⊔ registration.strength
  passed : ∀ id, (after.sets id).held registration.form ≠
      (before.sets id).held registration.form →
    ∀ target ∈ before.recipients id, Meets registration after target

variable {registration : Registration}

theorem Marks.stores {before after : Heap} (hmarks : Marks before after)
    (registration : Registration) : Stores registration before after :=
  ⟨hmarks.lowers, fun id form _ => hmarks.held id form,
    fun id => .inl (hmarks.held id _),
    fun id hchanged => absurd (hmarks.held id _) hchanged⟩

theorem Stores.held_le {before after : Heap}
    (hstores : Stores registration before after) (id : ℕ) (form : JsString) :
    (before.sets id).held form ≤ (after.sets id).held form := by
  by_cases hform : form = registration.form
  · subst hform
    rcases hstores.joined id with heq | heq
    · exact heq.ge
    · rw [heq]
      exact le_sup_left
  · exact (hstores.other id form hform).ge

/-- Later changes keep a set that meets a registration meeting it. -/
theorem Stores.meets {other : Registration} {before after : Heap} {id : ℕ}
    (hstores : Stores registration before after)
    (hmeets : Meets other before id) : Meets other after id :=
  hmeets.imp (·.trans (hstores.held_le id _))
    ((hstores.lowers.unmatched id).trans ·)

theorem Stores.trans {first second third : Heap}
    (hleft : Stores registration first second)
    (hright : Stores registration second third) :
    Stores registration first third where
  lowers := hleft.lowers.trans hright.lowers
  other id form hform :=
    (hright.other id form hform).trans (hleft.other id form hform)
  joined id := by
    rcases hleft.joined id with hfirst | hfirst <;>
      rcases hright.joined id with hsecond | hsecond
    · exact .inl (hsecond.trans hfirst)
    · exact .inr (hsecond.trans (by rw [hfirst]))
    · exact .inr (hsecond.trans hfirst)
    · refine .inr (hsecond.trans ?_)
      rw [hfirst, sup_assoc, sup_idem]
  passed id hchanged target htarget := by
    by_cases hlast : (third.sets id).held registration.form =
        (second.sets id).held registration.form
    · rw [hlast] at hchanged
      exact hright.meets (hleft.passed id hchanged target htarget)
    · rw [← hleft.lowers.recipients] at htarget
      exact hright.passed id hlast target htarget

/-- A store that changed its set and met every recipient is complete. -/
theorem stores_of_hold {heap final : Heap} {id : ℕ}
    (hstores : Stores registration
      (heap.update id ((heap.sets id).hold registration)) final)
    (htargets : ∀ target ∈ heap.recipients id,
      Meets registration final target) :
    Stores registration heap final ∧ Meets registration final id := by
  set stored := heap.update id ((heap.sets id).hold registration) with hstored
  have hrecipients : ∀ other, stored.recipients other = heap.recipients other :=
    update_same SentSecrets.recipients rfl
  have hunmatched : ∀ other, (stored.sets other).unmatched =
      (heap.sets other).unmatched := update_same SentSecrets.unmatched rfl
  have hheld : ∀ other form, other ≠ id ∨ form ≠ registration.form →
      (stored.sets other).held form = (heap.sets other).held form := by
    intro other form hor
    by_cases hother : other = id
    · subst hother
      rw [hstored, update_sets_self, SentSecrets.held_hold,
        if_neg (hor.resolve_left (not_not.mpr rfl))]
    · rw [hstored, update_sets_of_ne heap _ hother]
  have hjoin : (stored.sets id).held registration.form =
      (heap.sets id).held registration.form ⊔ registration.strength := by
    rw [hstored, update_sets_self, SentSecrets.held_hold, if_pos rfl]
  have hmet : Meets registration final id := by
    refine .inl (le_trans ?_ (hstores.held_le id _))
    rw [hjoin]
    exact le_sup_right
  refine ⟨⟨⟨hstores.lowers.size, fun other => ?_, fun other => ?_,
    fun other hchanged target htarget => ?_⟩, fun other form hform => ?_,
    fun other => ?_, fun other hchanged target htarget => ?_⟩, hmet⟩
  · exact (hstores.lowers.recipients other).trans (hrecipients other)
  · exact (hstores.lowers.unmatched other).trans (hunmatched other).le
  · refine hstores.lowers.lowered other ?_ target ?_
    · rwa [hunmatched]
    · rwa [hrecipients]
  · exact (hstores.other other form hform).trans (hheld other form (.inr hform))
  · by_cases hother : other = id
    · subst hother
      rcases hstores.joined other with heq | heq
      · exact .inr (heq.trans hjoin)
      · refine .inr (heq.trans ?_)
        rw [hjoin, sup_assoc, sup_idem]
    · rw [← hheld other registration.form (.inl hother)]
      exact hstores.joined other
  · by_cases hother : other = id
    · subst hother
      exact htargets target htarget
    · rw [← hheld other registration.form (.inl hother)] at hchanged
      rw [← hrecipients] at htarget
      exact hstores.passed other hchanged target htarget

/-- `store` reaches its set and everything the change passes through. -/
theorem stores_store {heap final : Heap} {id : ℕ}
    (hcall : heap.store id registration = some final) :
    Stores registration heap final ∧ Meets registration final id := by
  refine Propagation.spread_sound (Stores registration) (Meets registration)
    (fun heap => (Marks.refl heap).stores registration)
    (fun _ _ _ => Stores.trans) (fun _ _ _ => Stores.meets) ?_ ?_
    (heap.size + 1) hcall
  · intro heap later node hvisit
    simp only [storing, put] at hvisit
    split at hvisit
    · rename_i hsettled
      obtain ⟨rfl, -⟩ := Prod.mk.inj (Option.some.inj hvisit)
      exact ⟨(Marks.refl heap).stores registration,
        .inl (SentSecrets.settled_iff.mp hsettled)⟩
    · split at hvisit
      · obtain ⟨marked, hmarked, hpair⟩ := Option.map_eq_some_iff.mp hvisit
        obtain ⟨rfl, -⟩ := Prod.mk.inj hpair
        obtain ⟨hmarks, hlow⟩ := marks_unregistered hmarked
        exact ⟨hmarks.stores registration, .inr hlow⟩
      · cases (Prod.mk.inj (Option.some.inj hvisit)).2
  · intro heap later final node hvisit hstores htargets
    simp only [storing, put] at hvisit
    split at hvisit
    · cases (Prod.mk.inj (Option.some.inj hvisit)).2
    · split at hvisit
      · obtain ⟨_, _, hpair⟩ := Option.map_eq_some_iff.mp hvisit
        cases (Prod.mk.inj hpair).2
      · obtain ⟨rfl, -⟩ := Prod.mk.inj (Option.some.inj hvisit)
        refine stores_of_hold hstores fun target htarget =>
          htargets target ?_
        have hsame : (heap.update node
            ((heap.sets node).hold registration)).recipients node =
              heap.recipients node :=
          update_same SentSecrets.recipients (by rfl) node
        rw [← hsame] at htarget
        exact htarget

/-! ## Every call ends -/

/-- Every recipient is a set of the heap. -/
def Closed (heap : Heap) : Prop :=
  ∀ id, ∀ target ∈ heap.recipients id, target < heap.size

theorem Closed.lowers {before after : Heap} (hclosed : Closed before)
    (hlowers : Lowers before after) : Closed after := by
  intro id target htarget
  rw [hlowers.recipients] at htarget
  rw [hlowers.size]
  exact hclosed id target htarget

theorem pending_lt_size (heap : Heap) (Done : Heap → ℕ → Prop)
    [∀ heap, DecidablePred (Done heap)] :
    Propagation.pending (Finset.range heap.size) Done heap < heap.size + 1 := by
  have hcard := Finset.card_filter_le (Finset.range heap.size)
    fun node => ¬ Done heap node
  rw [Finset.card_range] at hcard
  exact Nat.lt_succ_of_le hcard

theorem unregistered_isSome {heap : Heap} (hclosed : Closed heap) {id : ℕ}
    (hid : id < heap.size) (length : Extent) :
    ∃ final, heap.unregistered id length = some final := by
  refine (Propagation.spread_isSome (marking length) (Finset.range heap.size)
    (fun later => Closed later ∧ later.size = heap.size)
    (fun heap id => (heap.sets id).unmatched ≤ length) ?_ ?_ (heap.size + 1)
    ⟨hclosed, rfl⟩ (Finset.mem_range.mpr hid) (pending_lt_size heap _)).imp
      fun _ hfinal => hfinal.1
  · rintro before node ⟨hclosed', hsize⟩ -
    simp only [marking, mark]
    split
    · exact ⟨before, false, rfl, ⟨hclosed', hsize⟩,
      fun _ hother => hother, by simp⟩
    · rename_i hhigh
      refine ⟨_, true, rfl, ⟨fun other target htarget => ?_, hsize⟩,
        fun other hother => ?_, fun _ => ⟨hhigh, ?_⟩⟩
      · refine hclosed' other target ?_
        rwa [recipients, update_same SentSecrets.recipients (by rfl)] at htarget
      · by_cases hsame : other = node
        · rw [hsame, update_sets_self]
        · rwa [update_sets_of_ne before _ hsame]
      · rw [update_sets_self]
  · rintro before node ⟨hclosed', hsize⟩ target htarget
    rw [Finset.mem_range, ← hsize]
    exact hclosed' node target htarget

theorem store_isSome {heap : Heap} (hclosed : Closed heap) {id : ℕ}
    (hid : id < heap.size) (registration : Registration) :
    ∃ final, heap.store id registration = some final := by
  classical
  refine (Propagation.spread_isSome (storing registration)
    (Finset.range heap.size)
    (fun later => Closed later ∧ later.size = heap.size)
    (fun heap id => registration.strength ≤
      (heap.sets id).held registration.form) ?_ ?_ (heap.size + 1)
    ⟨hclosed, rfl⟩ (Finset.mem_range.mpr hid) (pending_lt_size heap _)).imp
      fun _ hfinal => hfinal.1
  · rintro before node ⟨hclosed', hsize⟩ hnode
    rw [Finset.mem_range, ← hsize] at hnode
    simp only [storing, put]
    split
    · exact ⟨before, false, rfl, ⟨hclosed', hsize⟩,
      fun _ hother => hother, by simp⟩
    · rename_i hopen
      rw [SentSecrets.settled_iff] at hopen
      split
      · obtain ⟨later, hlater⟩ :=
          unregistered_isSome hclosed' hnode registration.form.length
        obtain ⟨hmarks, -⟩ := marks_unregistered hlater
        refine ⟨later, false, by rw [hlater]; rfl,
          ⟨hclosed'.lowers hmarks.lowers, hmarks.lowers.size.trans hsize⟩,
          fun other hother => ?_, by simp⟩
        rwa [hmarks.held]
      · refine ⟨_, true, rfl, ⟨fun other target htarget => ?_, hsize⟩,
          fun other hother => ?_, fun _ => ⟨hopen, ?_⟩⟩
        · refine hclosed' other target ?_
          rwa [recipients, update_same SentSecrets.recipients (by rfl)]
            at htarget
        · by_cases hsame : other = node
          · subst hsame
            rw [update_sets_self, SentSecrets.held_hold, if_pos rfl]
            exact hother.trans le_sup_left
          · rwa [update_sets_of_ne before _ hsame]
        · rw [update_sets_self, SentSecrets.held_hold, if_pos rfl]
          exact le_sup_right
  · rintro before node ⟨hclosed', hsize⟩ target htarget
    rw [Finset.mem_range, ← hsize]
    exact hclosed' node target htarget

/-! ## One inclusion -/

/-- The target covers every form of the source. -/
def Covered (heap : Heap) (source target : ℕ) : Prop :=
  ∀ form, (heap.sets source).held form ≤ (heap.sets target).held form ∨
    (heap.sets target).unmatched ≤ form.length

/-- An inclusion with nothing left to pass on. -/
structure Linked (heap : Heap) (source target : ℕ) : Prop where
  covered : Covered heap source target
  bounded : (heap.sets target).unmatched ≤ (heap.sets source).unmatched

theorem Linked.trans {heap : Heap} {first second third : ℕ}
    (hleft : Linked heap first second) (hright : Linked heap second third) :
    Linked heap first third where
  covered form := by
    rcases hleft.covered form with hheld | hshort
    · exact (hright.covered form).imp (hheld.trans ·) id
    · exact .inr (hright.bounded.trans hshort)
  bounded := hright.bounded.trans hleft.bounded

theorem Stores.covered {before after : Heap}
    (hstores : Stores registration before after) {source target : ℕ}
    (htarget : target ∈ before.recipients source)
    (hcovered : Covered before source target) : Covered after source target := by
  intro form
  by_cases hshort : (after.sets target).unmatched ≤ form.length
  · exact .inr hshort
  · have hheld : (before.sets source).held form ≤ (after.sets target).held form :=
      ((hcovered form).resolve_right fun hlow =>
        hshort ((hstores.lowers.unmatched target).trans hlow)).trans
          (hstores.held_le target form)
    refine .inl ?_
    by_cases hform : form = registration.form
    · subst hform
      by_cases hsame : (after.sets source).held registration.form =
          (before.sets source).held registration.form
      · rwa [hsame]
      · have hmeets := hstores.passed source hsame target htarget
        rw [(hstores.joined source).resolve_left hsame]
        exact sup_le hheld (hmeets.resolve_right hshort)
    · rwa [hstores.other source form hform]

theorem Lowers.bounded {before after : Heap} (hlowers : Lowers before after)
    {source target : ℕ} (htarget : target ∈ before.recipients source)
    (hbounded : (before.sets target).unmatched ≤
      (before.sets source).unmatched) :
    (after.sets target).unmatched ≤ (after.sets source).unmatched := by
  by_cases hsame : (after.sets source).unmatched = (before.sets source).unmatched
  · rw [hsame]
    exact (hlowers.unmatched target).trans hbounded
  · exact hlowers.lowered source hsame target htarget

/-! ## Whole calls -/

/-- What any sequence of stores and marks keeps. -/
structure Keeps (before after : Heap) : Prop where
  lowers : Lowers before after
  held_le : ∀ id form, (before.sets id).held form ≤ (after.sets id).held form
  covered : ∀ source, ∀ target ∈ before.recipients source,
    Covered before source target → Covered after source target

theorem Keeps.refl (heap : Heap) : Keeps heap heap :=
  ⟨.refl heap, fun _ _ => le_rfl, fun _ _ _ hcovered => hcovered⟩

theorem Keeps.trans {first second third : Heap} (hleft : Keeps first second)
    (hright : Keeps second third) : Keeps first third where
  lowers := hleft.lowers.trans hright.lowers
  held_le id form := (hleft.held_le id form).trans (hright.held_le id form)
  covered source target htarget hcovered :=
    hright.covered source target (hleft.lowers.recipients source ▸ htarget)
      (hleft.covered source target htarget hcovered)

theorem Stores.keeps {before after : Heap}
    (hstores : Stores registration before after) : Keeps before after :=
  ⟨hstores.lowers, hstores.held_le, fun _ _ htarget => hstores.covered htarget⟩

theorem Marks.keeps {before after : Heap} (hmarks : Marks before after) :
    Keeps before after :=
  (hmarks.stores ⟨[], .tiny, 0⟩).keeps

theorem Keeps.meets {before after : Heap} {id : ℕ}
    (hkeeps : Keeps before after) (hmeets : Meets registration before id) :
    Meets registration after id :=
  hmeets.imp (·.trans (hkeeps.held_le id _))
    ((hkeeps.lowers.unmatched id).trans ·)

theorem keeps_storeAll (registrations : List Registration) {heap final : Heap}
    {id : ℕ} (hcall : heap.storeAll id registrations = some final) :
    Keeps heap final ∧
      ∀ registration ∈ registrations, Meets registration final id := by
  induction registrations generalizing heap with
  | nil =>
      obtain rfl := Option.some.inj hcall
      exact ⟨.refl heap, fun _ hmem => (List.not_mem_nil hmem).elim⟩
  | cons registration rest ih =>
      rw [storeAll, List.foldlM_cons] at hcall
      obtain ⟨next, hnext, hrest⟩ := Option.bind_eq_some_iff.mp hcall
      obtain ⟨hstores, hmet⟩ := stores_store hnext
      obtain ⟨hkeeps, hmets⟩ := ih hrest
      refine ⟨hstores.keeps.trans hkeeps, fun other hmem => ?_⟩
      rcases List.mem_cons.mp hmem with rfl | hmem
      · exact hkeeps.meets hmet
      · exact hmets other hmem

/-- Storing what a set already holds leaves that set's forms alone, whatever
cycles the stores run through. -/
theorem storeAll_held (registrations : List Registration) {heap final : Heap}
    {id source : ℕ} (hcall : heap.storeAll id registrations = some final)
    (hheld : ∀ registration ∈ registrations,
      registration.strength ≤ (heap.sets source).held registration.form)
    (form : JsString) :
    (final.sets source).held form = (heap.sets source).held form := by
  induction registrations generalizing heap with
  | nil =>
      obtain rfl := Option.some.inj hcall
      rfl
  | cons registration rest ih =>
      rw [storeAll, List.foldlM_cons] at hcall
      obtain ⟨next, hnext, hrest⟩ := Option.bind_eq_some_iff.mp hcall
      obtain ⟨hstores, -⟩ := stores_store hnext
      have hfirst : (next.sets source).held form =
          (heap.sets source).held form := by
        by_cases hform : form = registration.form
        · subst hform
          rcases hstores.joined source with heq | heq
          · exact heq
          · rw [heq, sup_eq_left]
            exact hheld registration List.mem_cons_self
        · exact hstores.other source form hform
      rw [← hfirst]
      exact ih hrest fun other hmem =>
        (hheld other (List.mem_cons_of_mem _ hmem)).trans
          (hstores.held_le source _)

theorem storeAll_isSome (registrations : List Registration) {heap : Heap}
    (hclosed : Closed heap) {id : ℕ} (hid : id < heap.size) :
    ∃ final, heap.storeAll id registrations = some final := by
  induction registrations generalizing heap with
  | nil => exact ⟨heap, rfl⟩
  | cons registration rest ih =>
      obtain ⟨next, hnext⟩ := store_isSome hclosed hid registration
      obtain ⟨hstores, -⟩ := stores_store hnext
      obtain ⟨final, hfinal⟩ := ih (hclosed.lowers hstores.lowers)
        (by rwa [hstores.lowers.size])
      refine ⟨final, ?_⟩
      rw [storeAll, List.foldlM_cons, hnext]
      exact hfinal

/-! ## Inclusion -/

theorem link_held (heap : Heap) (recipient source id : ℕ) (form : JsString) :
    ((heap.link recipient source).sets id).held form =
      (heap.sets id).held form :=
  update_same (fun set => set.held form) (by rfl) id

theorem link_unmatched (heap : Heap) (recipient source id : ℕ) :
    ((heap.link recipient source).sets id).unmatched =
      (heap.sets id).unmatched :=
  update_same SentSecrets.unmatched (by rfl) id

theorem mem_link_recipients {heap : Heap} {recipient source id target : ℕ} :
    target ∈ (heap.link recipient source).recipients id ↔
      target ∈ heap.recipients id ∨ (id = source ∧ target = recipient) := by
  unfold link recipients
  by_cases hid : id = source
  · subst hid
    rw [update_sets_self]
    dsimp only
    split
    · rename_i hmem
      refine ⟨.inl, ?_⟩
      rintro (hold | ⟨-, rfl⟩)
      · exact hold
      · exact hmem
    · simp
  · rw [update_sets_of_ne heap _ hid]
    simp [hid]

/-- The registrations the inclusion loop stores are the source's own. -/
theorem registrationOf_strength {set : SentSecrets} {entry : JsString × Kind}
    (hentry : entry ∈ set.forms.entries) :
    (registrationOf set entry).strength = set.held entry.1 := by
  rw [SentSecrets.held_of_some (OrderedMap.get?_eq_some_iff.mpr hentry)]
  rfl

/-- The inclusion loop leaves the source's forms as it reads them. -/
theorem include_forms {heap stored : Heap} {recipient source : ℕ}
    (hcall : (heap.link recipient source).storeAll recipient
      ((heap.sets source).forms.entries.map
        (registrationOf (heap.sets source))) = some stored)
    (form : JsString) :
    (stored.sets source).held form = (heap.sets source).held form := by
  rw [← link_held heap recipient source source form]
  refine storeAll_held _ hcall (fun registration hmem => ?_) form
  obtain ⟨entry, hentry, rfl⟩ := List.mem_map.mp hmem
  rw [link_held, registrationOf_strength hentry]
  rfl

/-- A heap between two calls: every inclusion is complete. -/
structure Complete (heap : Heap) : Prop where
  closed : Closed heap
  linked : ∀ source, ∀ target ∈ heap.recipients source,
    Linked heap source target

theorem Complete.keeps {before after : Heap} (hcomplete : Complete before)
    (hkeeps : Keeps before after) : Complete after where
  closed := hcomplete.closed.lowers hkeeps.lowers
  linked source target htarget := by
    rw [hkeeps.lowers.recipients] at htarget
    have hlinked := hcomplete.linked source target htarget
    exact ⟨hkeeps.covered source target htarget hlinked.covered,
      hkeeps.lowers.bounded htarget hlinked.bounded⟩

theorem link_closed {heap : Heap} (hclosed : Closed heap) {recipient source : ℕ}
    (hrecipient : recipient < heap.size) : Closed (heap.link recipient source) := by
  intro id target htarget
  rcases mem_link_recipients.mp htarget with hold | ⟨-, rfl⟩
  · exact hclosed id target hold
  · exact hrecipient

theorem Complete.include {heap final : Heap} (hcomplete : Complete heap)
    {recipient source : ℕ} (hrecipient : recipient < heap.size)
    (hcall : heap.include recipient source = some final) : Complete final := by
  rw [Heap.include] at hcall
  split at hcall
  · obtain rfl := Option.some.inj hcall
    exact hcomplete
  · obtain ⟨stored, hstored, hmark⟩ := Option.bind_eq_some_iff.mp hcall
    obtain ⟨hkeeps, hmets⟩ := keeps_storeAll _ hstored
    obtain ⟨hmarks, hlow⟩ := marks_unregistered hmark
    have hwhole := hkeeps.trans hmarks.keeps
    have hnew : Linked final source recipient := by
      have hmem : recipient ∈ stored.recipients source := by
        rw [hkeeps.lowers.recipients]
        exact mem_link_recipients.mpr (.inr ⟨rfl, rfl⟩)
      refine ⟨hmarks.keeps.covered source recipient hmem fun form => ?_, ?_⟩
      · rw [include_forms hstored]
        rcases hform : (heap.sets source).forms.get? form with _ | kind
        · rw [SentSecrets.held_of_none hform]
          exact .inl bot_le
        · have hentry := OrderedMap.get?_eq_some_iff.mp hform
          have hmeets := hmets _ (List.mem_map.mpr ⟨_, hentry, rfl⟩)
          rw [Meets, registrationOf_strength hentry] at hmeets
          exact hmeets
      · by_cases hsame : (final.sets source).unmatched =
            (stored.sets source).unmatched
        · rwa [hsame]
        · exact hmarks.lowers.lowered source hsame recipient hmem
    refine ⟨(link_closed hcomplete.closed hrecipient).lowers hwhole.lowers,
      fun other target htarget => ?_⟩
    rw [hwhole.lowers.recipients] at htarget
    rcases mem_link_recipients.mp htarget with hold | ⟨rfl, rfl⟩
    · have hlinked := hcomplete.linked other target hold
      refine ⟨hwhole.covered other target htarget fun form => ?_,
        hwhole.lowers.bounded htarget ?_⟩
      · rw [link_held, link_held, link_unmatched]
        exact hlinked.covered form
      · rw [link_unmatched, link_unmatched]
        exact hlinked.bounded
    · exact hnew

theorem include_isSome {heap : Heap} (hclosed : Closed heap)
    {recipient source : ℕ} (hrecipient : recipient < heap.size) :
    ∃ final, heap.include recipient source = some final := by
  rw [Heap.include]
  split
  · exact ⟨heap, rfl⟩
  · have hlinked : Closed (heap.link recipient source) :=
      link_closed hclosed hrecipient
    obtain ⟨stored, hstored⟩ := storeAll_isSome
      ((heap.sets source).forms.entries.map (registrationOf (heap.sets source)))
      hlinked hrecipient
    obtain ⟨hkeeps, -⟩ := keeps_storeAll _ hstored
    obtain ⟨final, hfinal⟩ := unregistered_isSome
      (hlinked.lowers hkeeps.lowers)
      (show recipient < stored.size by rwa [hkeeps.lowers.size])
      (stored.sets source).unmatched
    refine ⟨final, ?_⟩
    exact Option.bind_eq_some_iff.mpr ⟨stored, hstored, hfinal⟩

theorem Complete.create {heap : Heap} (hcomplete : Complete heap) :
    Complete heap.create := by
  have hrecipients : ∀ id, id ≠ heap.size →
      heap.create.sets id = heap.sets id := fun id hid =>
    update_sets_of_ne heap {} hid
  have hempty : heap.create.recipients heap.size = [] := by
    simp [Heap.create, recipients, update]
  have hedge : ∀ source, ∀ target ∈ heap.create.recipients source,
      source ≠ heap.size ∧ target ∈ heap.recipients source := by
    intro source target htarget
    have hsource : source ≠ heap.size := by
      rintro rfl
      rw [hempty] at htarget
      exact List.not_mem_nil htarget
    rw [recipients, hrecipients source hsource] at htarget
    exact ⟨hsource, htarget⟩
  refine ⟨fun source target htarget => ?_, fun source target htarget => ?_⟩
  · exact (hcomplete.closed source target (hedge source target htarget).2).trans
      (Nat.lt_succ_self _)
  · obtain ⟨hsource, hold⟩ := hedge source target htarget
    have htarget' := (hcomplete.closed source target hold).ne
    have hlinked := hcomplete.linked source target hold
    refine ⟨fun form => ?_, ?_⟩
    · rw [hrecipients source hsource, hrecipients target htarget']
      exact hlinked.covered form
    · rw [hrecipients source hsource, hrecipients target htarget']
      exact hlinked.bounded

end Heap

/-! ## Every run -/

open Heap

theorem complete_call {heap final : Heap} {event : Event}
    (hcomplete : Complete heap) (hvalid : event.valid heap = true)
    (hcall : call heap event = some final) : Complete final := by
  cases event with
  | create =>
      obtain rfl := Option.some.inj hcall
      exact hcomplete.create
  | store id registration =>
      exact hcomplete.keeps (stores_store hcall).1.keeps
  | register id value kind frame =>
      exact hcomplete.keeps (keeps_storeAll _ hcall).1
  | add id value frame => exact hcomplete.keeps (keeps_storeAll _ hcall).1
  | submit id value =>
      simp only [call, submit] at hcall
      split at hcall
      · obtain rfl := Option.some.inj hcall
        exact hcomplete
      · split at hcall
        · exact hcomplete.keeps (marks_unregistered hcall).1.keeps
        · exact hcomplete.keeps (keeps_storeAll _ hcall).1
  | unregistered id length =>
      exact hcomplete.keeps (marks_unregistered hcall).1.keeps
  | «include» recipient source =>
      simp only [Event.valid, Bool.and_eq_true, decide_eq_true_eq] at hvalid
      exact hcomplete.include hvalid.1 hcall

theorem call_isSome {heap : Heap} (hclosed : Closed heap) {event : Event}
    (hvalid : event.valid heap = true) :
    ∃ final, call heap event = some final := by
  cases event with
  | create => exact ⟨_, rfl⟩
  | store id registration =>
      exact store_isSome hclosed (of_decide_eq_true hvalid) registration
  | register id value kind frame =>
      exact storeAll_isSome _ hclosed (of_decide_eq_true hvalid)
  | add id value frame =>
      exact storeAll_isSome _ hclosed (of_decide_eq_true hvalid)
  | submit id value =>
      simp only [call, submit]
      split
      · exact ⟨heap, rfl⟩
      · split
        · exact unregistered_isSome hclosed (of_decide_eq_true hvalid) _
        · exact storeAll_isSome _ hclosed (of_decide_eq_true hvalid)
  | unregistered id length =>
      exact unregistered_isSome hclosed (of_decide_eq_true hvalid) length
  | «include» recipient source =>
      simp only [Event.valid, Bool.and_eq_true, decide_eq_true_eq] at hvalid
      exact include_isSome hclosed hvalid.1

theorem complete_of_reachable {heap : Heap} (hreach : machine.Reachable heap) :
    Complete heap := by
  refine hreach.invariant (motive := Complete) ?_ ?_
  · rintro _ rfl
    exact ⟨fun _ _ hmem => (List.not_mem_nil hmem).elim,
      fun _ _ hmem => (List.not_mem_nil hmem).elim⟩
  · intro before event after emitted hcomplete hmove
    simp only [machine, Option.ite_none_right_eq_some] at hmove
    obtain ⟨hvalid, hmap⟩ := hmove
    obtain ⟨final, hcall, hpair⟩ := Option.map_eq_some_iff.mp hmap
    obtain ⟨rfl, -⟩ := Prod.mk.inj hpair
    exact complete_call hcomplete hvalid hcall

/-- `recipient` includes `source`, directly or through other sets. -/
def Includes (heap : Heap) (source recipient : ℕ) : Prop :=
  Relation.TransGen (fun other target => target ∈ heap.recipients other)
    source recipient

theorem linked_of_includes {heap : Heap} (hcomplete : Complete heap)
    {source recipient : ℕ} (hincludes : Includes heap source recipient) :
    Linked heap source recipient := by
  induction hincludes with
  | single hedge => exact hcomplete.linked _ _ hedge
  | tail _ hedge ih => exact ih.trans (hcomplete.linked _ _ hedge)

/-- After any run of calls over any graph of sets, every further call ends, and
whoever includes a set, directly or through others, holds each of its forms at
least as strongly or leaves every string as long as the form unmatched. -/
theorem inclusions_complete (heap : Heap) (hreach : machine.Reachable heap) :
    (∀ event : Event, event.valid heap = true →
      ∃ later, call heap event = some later) ∧
    ∀ source recipient, Includes heap source recipient →
      (∀ form kind, (heap.sets source).forms.get? form = some kind →
        (∃ stronger, (heap.sets recipient).forms.get? form = some stronger ∧
          kind ≤ stronger ∧ (heap.sets recipient).frameOf form ≤
            (heap.sets source).frameOf form) ∨
        (heap.sets recipient).unmatched ≤ form.length) ∧
      (heap.sets recipient).unmatched ≤ (heap.sets source).unmatched := by
  have hcomplete := complete_of_reachable hreach
  refine ⟨fun event hvalid => call_isSome hcomplete.closed hvalid, ?_⟩
  intro source recipient hincludes
  have hlinked := linked_of_includes hcomplete hincludes
  refine ⟨fun form kind hform => ?_, hlinked.bounded⟩
  refine (hlinked.covered form).imp_left fun hheld => ?_
  rw [SentSecrets.held_of_some hform] at hheld
  rcases hstronger : (heap.sets recipient).forms.get? form with _ | stronger
  · rw [SentSecrets.held_of_none hstronger, le_bot_iff] at hheld
    exact absurd hheld (strength_ne_bot _ _)
  · rw [SentSecrets.held_of_some hstronger, strength_le_strength] at hheld
    exact ⟨stronger, rfl, hheld⟩

/-- Three sets around a cycle: what the first is sent reaches the third, and so
does the length of a value too long to register. -/
theorem inclusions_complete_cycle :
    let registration : Registration :=
      ⟨JsString.ofAscii "abcdefgh", .credential, 2⟩
    ∃ heap, (machine.execute {} [.create, .create, .create, .include 1 0,
          .store 0 registration, .include 2 1, .include 0 2,
          .unregistered 0 9]).map Prod.fst = some heap ∧
      Includes heap 0 2 ∧ (heap.sets 2).unmatched ≤ (heap.sets 0).unmatched ∧
      (heap.sets 2).unmatched = 9 := by
  intro registration
  obtain ⟨⟨heap, emitted⟩, hexecute, hfirst, hsecond, hunmatched⟩ :
      ∃ result, machine.execute {} [.create, .create, .create, .include 1 0,
          .store 0 registration, .include 2 1, .include 0 2,
          .unregistered 0 9] = some result ∧
        1 ∈ result.1.recipients 0 ∧ 2 ∈ result.1.recipients 1 ∧
        (result.1.sets 2).unmatched = 9 :=
    ⟨_, rfl, by decide, by decide, by decide⟩
  have hstart : machine.Run {} [] := .start rfl
  have hreach : machine.Reachable heap := ⟨_, hstart.execute _ hexecute⟩
  have hincludes : Includes heap 0 2 := .tail (.single hfirst) hsecond
  exact ⟨heap, by rw [hexecute]; rfl, hincludes,
    ((inclusions_complete heap hreach).2 0 2 hincludes).2, hunmatched⟩

end Connecta.Secrets
