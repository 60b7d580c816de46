import Mathlib.Data.List.Sublists
import Connecta.Foundation.OrderedMap

/-!
# Sets in insertion order, and postings

A set remembers the order in which its members arrived.  The postings of some documents keep,
for each token, the positions of the documents that have it, in order; what is visible of the
documents is read through a table of positions.
-/

namespace Connecta.Foundation

/-! ## Sets -/

section Sets

variable {Member : Type*} [DecidableEq Member]

/-- A member is added at the end, unless it is there. -/
def adjoin (members : List Member) (member : Member) : List Member :=
  if member ∈ members then members else members ++ [member]

def adjoinAll (members added : List Member) : List Member := added.foldl adjoin members

/-- The distinct members of a list, where they occur first. -/
def distinct (members : List Member) : List Member := adjoinAll [] members

theorem mem_adjoin {members : List Member} {member other : Member} :
    other ∈ adjoin members member ↔ other ∈ members ∨ other = member := by
  rw [adjoin]
  split_ifs with hmember
  · exact ⟨.inl, fun hother => hother.elim id fun heq => heq ▸ hmember⟩
  · rw [List.mem_append, List.mem_singleton]

theorem mem_adjoinAll {members added : List Member} {other : Member} :
    other ∈ adjoinAll members added ↔ other ∈ members ∨ other ∈ added := by
  induction added generalizing members with
  | nil => exact ⟨.inl, fun hother => hother.elim id fun hnone => absurd hnone List.not_mem_nil⟩
  | cons member rest ih =>
      change other ∈ adjoinAll (adjoin members member) rest ↔ _
      rw [ih, mem_adjoin, List.mem_cons, or_assoc]

theorem mem_distinct {members : List Member} {other : Member} :
    other ∈ distinct members ↔ other ∈ members := by
  rw [distinct, mem_adjoinAll, or_iff_right List.not_mem_nil]

theorem nodup_adjoin {members : List Member} (hnodup : members.Nodup) (member : Member) :
    (adjoin members member).Nodup := by
  rw [adjoin]
  split_ifs with hmember
  · exact hnodup
  · rw [List.nodup_append]
    refine ⟨hnodup, List.nodup_singleton member, ?_⟩
    rintro other hother _ hadded rfl
    exact hmember (List.mem_singleton.mp hadded ▸ hother)

theorem nodup_adjoinAll {members : List Member} (hnodup : members.Nodup) (added : List Member) :
    (adjoinAll members added).Nodup := by
  induction added generalizing members with
  | nil => exact hnodup
  | cons member rest ih => exact ih (nodup_adjoin hnodup member)

theorem nodup_distinct (members : List Member) : (distinct members).Nodup :=
  nodup_adjoinAll List.nodup_nil members

theorem prefix_adjoin (members : List Member) (member : Member) :
    members <+: adjoin members member := by
  rw [adjoin]
  split_ifs
  · exact List.prefix_rfl
  · exact List.prefix_append members [member]

theorem prefix_adjoinAll (members added : List Member) :
    members <+: adjoinAll members added := by
  induction added generalizing members with
  | nil => exact List.prefix_rfl
  | cons member rest ih => exact (prefix_adjoin members member).trans (ih (adjoin members member))

theorem adjoinAll_append (members first second : List Member) :
    adjoinAll members (first ++ second) = adjoinAll (adjoinAll members first) second :=
  List.foldl_append

theorem adjoin_of_mem {members : List Member} {member : Member} (hmember : member ∈ members) :
    adjoin members member = members :=
  if_pos hmember

theorem adjoinAll_adjoin (members added : List Member) (member : Member) :
    adjoinAll members (adjoin added member) = adjoin (adjoinAll members added) member := by
  by_cases hmember : member ∈ added
  · rw [adjoin_of_mem hmember, adjoin_of_mem (mem_adjoinAll.mpr (.inr hmember))]
  · rw [adjoin, if_neg hmember, adjoinAll_append]
    rfl

theorem adjoinAll_adjoinAll (members base added : List Member) :
    adjoinAll members (adjoinAll base added) = adjoinAll (adjoinAll members base) added := by
  induction added generalizing base with
  | nil => rfl
  | cons member rest ih =>
      calc adjoinAll members (adjoinAll (adjoin base member) rest)
          = adjoinAll (adjoinAll members (adjoin base member)) rest := ih _
        _ = adjoinAll (adjoin (adjoinAll members base) member) rest := by rw [adjoinAll_adjoin]

/-- Only what is distinct of a list is added. -/
theorem adjoinAll_distinct (members added : List Member) :
    adjoinAll members (distinct added) = adjoinAll members added :=
  adjoinAll_adjoinAll members [] added

theorem distinct_flatMap {Part : Type*} (parts : List Part) (membersOf : Part → List Member) :
    distinct (parts.flatMap fun part => distinct (membersOf part)) =
      distinct (parts.flatMap membersOf) := by
  have hfrom (start : List Member) :
      adjoinAll start (parts.flatMap fun part => distinct (membersOf part)) =
        adjoinAll start (parts.flatMap membersOf) := by
    induction parts generalizing start with
    | nil => rfl
    | cons part rest ih =>
        rw [List.flatMap_cons, List.flatMap_cons, adjoinAll_append, adjoinAll_append,
          adjoinAll_distinct, ih]
  exact hfrom []

theorem distinct_of_nodup {members : List Member} (hnodup : members.Nodup) :
    distinct members = members := by
  have hfrom (start : List Member) (hall : (start ++ members).Nodup) :
      adjoinAll start members = start ++ members := by
    clear hnodup
    induction members generalizing start with
    | nil => exact (List.append_nil start).symm
    | cons member rest ih =>
        have hnew : member ∉ start := by
          intro hmember
          exact (List.nodup_append.mp hall).2.2 member hmember member List.mem_cons_self rfl
        have hstep : adjoin start member = start ++ [member] := if_neg hnew
        calc adjoinAll (adjoin start member) rest
            = adjoinAll (start ++ [member]) rest := by rw [hstep]
          _ = start ++ [member] ++ rest := ih _ (by rwa [List.append_assoc])
          _ = start ++ member :: rest := List.append_assoc _ _ _
  exact hfrom [] hnodup

/-- A subsequence of distinct members is what has its members. -/
theorem filter_mem_of_sublist {visible source : List Member} (hnodup : source.Nodup)
    (hvisible : visible.Sublist source) : source.filter (· ∈ visible) = visible := by
  induction hvisible with
  | slnil => rfl
  | @cons visible source first hvisible ih =>
      obtain ⟨hfirst, hnodup⟩ := List.nodup_cons.mp hnodup
      have hhidden : first ∉ visible := fun hmem => hfirst (hvisible.subset hmem)
      rw [List.filter_cons_of_neg (by simpa using hhidden), ih hnodup]
  | @cons_cons visible source first hvisible ih =>
      obtain ⟨hfirst, hnodup⟩ := List.nodup_cons.mp hnodup
      have hbehind (member : Member) (hmember : member ∈ source) :
          decide (member ∈ first :: visible) = decide (member ∈ visible) := by
        have hne : member ≠ first := fun heq => hfirst (heq ▸ hmember)
        simp [hne]
      rw [List.filter_cons_of_pos (by simp), List.filter_congr hbehind, ih hnodup]

/-- Those of all that a set does not have. -/
def missing (all members : List Member) : List Member := all.filter (· ∉ members)

/-- Members that come to a set are missing from it no longer. -/
theorem length_missing_append {all members fresh : List Member} (hnodup : fresh.Nodup)
    (hall : fresh ⊆ all) (hfresh : ∀ member ∈ fresh, member ∉ members) :
    fresh.length + (missing all (members ++ fresh)).length ≤ (missing all members).length := by
  have hmissing : missing all (members ++ fresh) =
      (missing all members).filter fun member => !decide (member ∈ fresh) := by
    rw [missing, missing, List.filter_filter]
    congr 1
    funext member
    by_cases hmember : member ∈ members
    · simp [hmember]
    · simp [hmember]
  have hsubset : fresh ⊆ (missing all members).filter fun member => member ∈ fresh := by
    intro member hmember
    rw [List.mem_filter, missing, List.mem_filter]
    exact ⟨⟨hall hmember, decide_eq_true (hfresh member hmember)⟩, decide_eq_true hmember⟩
  have hsplit := @List.length_eq_length_filter_add _ (missing all members)
    fun member => decide (member ∈ fresh)
  rw [hmissing, hsplit]
  exact Nat.add_le_add_right (hnodup.subperm hsubset).length_le _

end Sets

/-! ## Postings -/

section Postings

variable {Token : Type*} [DecidableEq Token]

/-- A position behind those of a token. -/
def post (position : ℕ) (map : OrderedMap Token (List ℕ)) (token : Token) :
    OrderedMap Token (List ℕ) :=
  map.set token ((map.get? token).getD [] ++ [position])

def postDocument (map : OrderedMap Token (List ℕ)) (document : List Token × ℕ) :
    OrderedMap Token (List ℕ) :=
  (distinct document.1).foldl (post document.2) map

/-- The positions of the documents of each token. -/
def postings (documents : List (List Token)) : OrderedMap Token (List ℕ) :=
  documents.zipIdx.foldl postDocument .empty

/-- The positions under a token; none where it has no entry. -/
def positions (map : OrderedMap Token (List ℕ)) (token : Token) : List ℕ :=
  (map.get? token).getD []

theorem positions_post (position : ℕ) (map : OrderedMap Token (List ℕ)) (token other : Token) :
    positions (post position map token) other =
      if other = token then positions map other ++ [position] else positions map other := by
  rw [positions, post, OrderedMap.get?_set]
  by_cases hsame : other = token
  · subst hsame
    rw [if_pos rfl, if_pos rfl]
    rfl
  · rw [if_neg hsame, if_neg hsame]
    rfl

theorem positions_postDocument (map : OrderedMap Token (List ℕ)) (document : List Token × ℕ)
    (token : Token) : positions (postDocument map document) token =
      positions map token ++ if token ∈ document.1 then [document.2] else [] := by
  have hfold (tokens : List Token) (hnodup : tokens.Nodup) (map : OrderedMap Token (List ℕ)) :
      positions (tokens.foldl (post document.2) map) token =
        positions map token ++ if token ∈ tokens then [document.2] else [] := by
    induction tokens generalizing map with
    | nil => rw [List.foldl_nil, if_neg List.not_mem_nil, List.append_nil]
    | cons first rest ih =>
        obtain ⟨hfirst, hrest⟩ := List.nodup_cons.mp hnodup
        rw [List.foldl_cons, ih hrest, positions_post]
        by_cases hsame : token = first
        · subst hsame
          rw [if_pos rfl, if_neg hfirst, List.append_nil, if_pos List.mem_cons_self]
        · have hmem : token ∈ first :: rest ↔ token ∈ rest := by
            rw [List.mem_cons, or_iff_right hsame]
          rw [if_neg hsame]
          simp only [hmem]
  rw [postDocument, hfold _ (nodup_distinct _)]
  simp only [mem_distinct]

/-- Under a token are the positions of the documents that have it. -/
theorem positions_postings (documents : List (List Token)) (token : Token) :
    positions (postings documents) token =
      (documents.zipIdx.filter fun document => token ∈ document.1).map Prod.snd := by
  have hfold (pending : List (List Token × ℕ)) (map : OrderedMap Token (List ℕ)) :
      positions (pending.foldl postDocument map) token =
        positions map token ++ (pending.filter fun document => token ∈ document.1).map
          Prod.snd := by
    induction pending generalizing map with
    | nil => exact (List.append_nil _).symm
    | cons document rest ih =>
        rw [List.foldl_cons, ih, positions_postDocument, List.filter_cons]
        by_cases hmem : token ∈ document.1
        · simp [hmem]
        · simp [hmem]
  rw [postings, hfold]
  rfl

end Postings

/-! ## Views -/

section Views

variable {Item : Type*}

/-- What stands at a position of a table. -/
def itemAt (table : List (ℕ × Item)) (position : ℕ) : Option Item :=
  (table.find? fun entry => entry.1 = position).map Prod.snd

/-- Every item at its position. -/
def numbered (items : List Item) : List (ℕ × Item) := items.zipIdx.map Prod.swap

/-- A table shows some of the items, each at its position. -/
def Shows (items : List Item) (table : List (ℕ × Item)) : Prop :=
  table.Sublist (numbered items)

theorem numbered_items (items : List Item) : (numbered items).map Prod.snd = items := by
  rw [numbered, List.map_map]
  exact List.zipIdx_map_fst 0 items

theorem numbered_nodup (items : List Item) : ((numbered items).map Prod.fst).Nodup := by
  have hpositions : (numbered items).map Prod.fst = List.range' 0 items.length := by
    rw [numbered, List.map_map]
    exact List.zipIdx_map_snd 0 items
  rw [hpositions]
  exact List.nodup_range'

theorem shows_numbered (items : List Item) : Shows items (numbered items) :=
  List.Sublist.refl _

theorem Shows.filter {items : List Item} {table : List (ℕ × Item)} (hshows : Shows items table)
    (keep : ℕ × Item → Bool) : Shows items (table.filter keep) :=
  List.filter_sublist.trans hshows

/-- Where no position occurs twice, going through the positions of all entries meets those of
the table, each with what the table has there. -/
theorem filterMap_itemAt {Found : Type*} {entries table : List (ℕ × Item)}
    (hsub : table.Sublist entries) (hnodup : (entries.map Prod.fst).Nodup)
    (keep : Item → Item → Option Found) :
    entries.filterMap (fun entry => (itemAt table entry.1).bind (keep entry.2)) =
      table.filterMap fun entry => keep entry.2 entry.2 := by
  have hother {first : ℕ × Item} {rest : List (ℕ × Item)} {entry : ℕ × Item}
      (hfirst : first.1 ∉ rest.map Prod.fst) (hentry : entry ∈ rest) : first.1 ≠ entry.1 :=
    fun hsame => hfirst (hsame ▸ List.mem_map_of_mem hentry)
  induction hsub with
  | slnil => rfl
  | @cons table rest first hrest ih =>
      rw [List.map_cons, List.nodup_cons] at hnodup
      have hnone : itemAt table first.1 = none := by
        rw [itemAt, List.find?_eq_none.mpr, Option.map_none]
        intro entry hentry hsame
        exact hother hnodup.1 (hrest.subset hentry) (of_decide_eq_true hsame).symm
      rw [List.filterMap_cons, hnone]
      exact ih hnodup.2
  | @cons_cons table rest first hrest ih =>
      rw [List.map_cons, List.nodup_cons] at hnodup
      have hfirst : itemAt (first :: table) first.1 = some first.2 := by
        rw [itemAt, List.find?_cons_of_pos, Option.map_some]
        exact decide_eq_true rfl
      have hbehind (entry : ℕ × Item) (hentry : entry ∈ rest) :
          itemAt (first :: table) entry.1 = itemAt table entry.1 := by
        rw [itemAt, List.find?_cons_of_neg, itemAt]
        exact fun hsame => hother hnodup.1 hentry (of_decide_eq_true hsame)
      have hrests : rest.filterMap
            (fun entry => (itemAt (first :: table) entry.1).bind (keep entry.2)) =
          table.filterMap fun entry => keep entry.2 entry.2 := by
        rw [← ih hnodup.2]
        exact List.filterMap_congr fun entry hentry => by rw [hbehind entry hentry]
      rw [List.filterMap_cons, List.filterMap_cons, hfirst, hrests]
      rfl

variable {Document : Type*} {items : List Item} {table : List (ℕ × Item)}

/-- The documents at the positions of a table, each with its item. -/
def shownDocuments (documents : List Document) (table : List (ℕ × Item)) :
    List (Document × Item) :=
  documents.zipIdx.filterMap fun document => (itemAt table document.2).map (document.1, ·)

theorem zipIdx_map (document : Item → Document) (items : List Item) :
    (items.map document).zipIdx =
      (numbered items).map fun entry => (document entry.2, entry.1) := by
  rw [numbered, List.map_map, List.zipIdx_map]
  rfl

theorem Shows.shownDocuments_eq (hshows : Shows items table) (document : Item → Document) :
    shownDocuments (items.map document) table =
      (table.map Prod.snd).map fun item => (document item, item) := by
  have hread (entry : ℕ × Item) :
      (itemAt table entry.1).map (document entry.2, ·) =
        (itemAt table entry.1).bind fun item => some (document entry.2, item) := by
    cases itemAt table entry.1 <;> rfl
  rw [shownDocuments, zipIdx_map, List.filterMap_map]
  simp only [Function.comp_def, hread]
  rw [filterMap_itemAt hshows (numbered_nodup items)
    fun own item => some (document own, item)]
  rw [List.filterMap_eq_map', List.map_map]
  rfl

variable {Token : Type*} [DecidableEq Token]

/-- What a table shows of the documents of a token. -/
def shownUnder (map : OrderedMap Token (List ℕ)) (table : List (ℕ × Item)) (token : Token) :
    List Item :=
  (positions map token).filterMap (itemAt table)

/-- The items that have a token. -/
def having (tokens : Item → List Token) (token : Token) (items : List Item) : List Item :=
  items.filter fun item => token ∈ tokens item

theorem mem_having {tokens : Item → List Token} {token : Token} {item : Item} :
    item ∈ having tokens token items ↔ item ∈ items ∧ token ∈ tokens item := by
  rw [having, List.mem_filter, decide_eq_true_eq]

/-- The table shows just those of its items that have the token. -/
theorem Shows.shownUnder_eq (hshows : Shows items table) (tokens : Item → List Token)
    (token : Token) : shownUnder (postings (items.map tokens)) table token =
      having tokens token (table.map Prod.snd) := by
  have hread (entry : ℕ × Item) :
      (if token ∈ tokens entry.2 then itemAt table entry.1 else none) =
        (itemAt table entry.1).bind
          fun item => if token ∈ tokens entry.2 then some item else none := by
    by_cases hmem : token ∈ tokens entry.2
    · simp [hmem]
    · simp [hmem]
  rw [shownUnder, positions_postings, zipIdx_map, List.filter_map, List.map_map,
    List.filterMap_map, List.filterMap_filter]
  simp only [Function.comp_def, decide_eq_true_eq, hread]
  rw [filterMap_itemAt hshows (numbered_nodup items)
    fun own item => if token ∈ tokens own then some item else none]
  rw [having, List.filter_map, ← List.filterMap_eq_filter, List.map_filterMap]
  refine List.filterMap_congr fun entry _ => ?_
  by_cases hmem : token ∈ tokens entry.2
  · simp [hmem]
  · simp [hmem, Option.guard]

end Views

end Connecta.Foundation
