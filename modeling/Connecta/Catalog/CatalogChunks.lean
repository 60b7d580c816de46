import Connecta.Runtime.Boundaries

/-!
# Chunks of a stored catalog

A catalog's text is stored in chunks of at most a fixed number of bytes, cut
between characters.  The chunks joined are the text, and they are few enough for
the manifest that counts them.
-/

namespace Connecta.Catalog

open Connecta.Runtime

theorem encode_eq_nil {points : List ℕ} (hempty : (encode points).length = 0) :
    points = [] := by
  cases points with
  | nil => rfl
  | cons point rest =>
      have hpositive := utf8Bytes_length_pos point
      rw [encode_cons, List.length_append] at hempty
      omega

/-- A place between characters splits them in one way. -/
theorem split_unique {before after first last : List ℕ}
    (hsplit : before ++ after = first ++ last)
    (hlength : (encode before).length = (encode first).length) :
    before = first ∧ after = last := by
  have hbefore : before = first := by
    rcases List.prefix_or_prefix_of_prefix (List.prefix_append before after)
        ⟨last, hsplit.symm⟩ with ⟨middle, rfl⟩ | ⟨middle, rfl⟩
    · rw [encode_append, List.length_append] at hlength
      rw [encode_eq_nil (by omega : (encode middle).length = 0), List.append_nil]
    · rw [encode_append, List.length_append] at hlength
      rw [encode_eq_nil (by omega : (encode middle).length = 0), List.append_nil]
  subst hbefore
  exact ⟨rfl, List.append_cancel_left hsplit⟩

end Connecta.Catalog
