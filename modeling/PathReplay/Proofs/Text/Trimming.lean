import Mathlib.Data.List.TakeWhile
import PathReplay.Text.Blank

/-!
# Trimming

* `trimmedRight_append`, `exists_trimmedRight` : blanks at the end of a text are what trimming its end takes away;
* `trimmed_eq_iff` : what trimming leaves.
-/

namespace PathReplay.Text

variable {cs t l r : List Char}

theorem trimmedRight_append (hr : ∀ c ∈ r, isBlank c = true) : trimmedRight (t ++ r) = trimmedRight t := by
  unfold trimmedRight
  rw [List.reverse_append, List.dropWhile_append_of_pos fun c hc => hr c (List.mem_reverse.1 hc)]

theorem exists_trimmedRight (cs : List Char) : ∃ r, cs = trimmedRight cs ++ r ∧ ∀ c ∈ r, isBlank c = true := by
  refine ⟨(cs.reverse.takeWhile isBlank).reverse, ?_, fun c hc => ?_⟩
  · rw [trimmedRight, ← List.reverse_append, List.takeWhile_append_dropWhile, List.reverse_reverse]
  · exact List.mem_takeWhile_imp (List.mem_reverse.1 hc)

theorem isBlank_head_dropWhile (cs : List Char) : ∀ c ∈ (cs.dropWhile isBlank).head?, isBlank c = false := by
  intro c hc
  have h := List.head?_dropWhile_not isBlank cs
  rwa [Option.mem_def.1 hc] at h

/-- Trimming takes blanks away from both ends, until there are none. -/
theorem trimmed_eq_iff : trimmed cs = t ↔
    (∃ l r, cs = l ++ t ++ r ∧ (∀ c ∈ l, isBlank c = true) ∧ ∀ c ∈ r, isBlank c = true) ∧
      (∀ c ∈ t.head?, isBlank c = false) ∧ ∀ c ∈ t.getLast?, isBlank c = false := by
  constructor
  · rintro rfl
    obtain ⟨r, hr, hblank⟩ := exists_trimmedRight (cs.dropWhile isBlank)
    refine ⟨⟨cs.takeWhile isBlank, r, ?_, fun c hc => List.mem_takeWhile_imp hc, hblank⟩,
      fun c hc => ?_, fun c hc => ?_⟩
    · rw [List.append_assoc, trimmed, ← hr, List.takeWhile_append_dropWhile]
    · refine isBlank_head_dropWhile cs c ?_
      rw [hr, Option.mem_def, List.head?_append]
      exact Option.or_eq_some_iff.2 (.inl hc)
    · rw [trimmed, trimmedRight, List.getLast?_reverse] at hc
      exact isBlank_head_dropWhile _ c hc
  · rintro ⟨⟨l, r, rfl, hl, hr⟩, hhead, hlast⟩
    rw [trimmed, List.append_assoc, List.dropWhile_append_of_pos hl]
    cases t with
    | nil =>
      rw [List.nil_append, List.dropWhile_eq_nil_iff.2 hr]
      rfl
    | cons c t =>
      rw [List.cons_append, List.dropWhile_cons_of_neg (by simp [hhead c rfl]), ← List.cons_append,
        trimmedRight_append hr, trimmedRight_eq_self hlast]

end PathReplay.Text
