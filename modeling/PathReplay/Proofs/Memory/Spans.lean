import Mathlib.Data.List.Pairwise
import PathReplay.Memory.Span

/-!
# Merged spans

* `Span.exists_mem_merged` : merging neither adds nor loses an address;
* `Span.pairwise_merged` : merged spans are in order and do not touch;
* `Span.exists_covering`, `Span.exists_first` : every span lies in a merged one, which starts where some span starts;
  `Span.empty_mem_merged_iff` : so a merged span is empty if it was there and there is nothing next to it;
* `Span.exists_mem_of_run` : so addresses in a row that are all held lie in a single merged span.
-/

namespace PathReplay.Span

variable {s t : Span} {spans rest : List Span}

theorem holds_iff {a : Address} : s.Holds a ↔ s.1.toNat ≤ a.toNat ∧ a.toNat < s.2.toNat := by
  rw [Holds, UInt64.le_iff_toNat_le, UInt64.lt_iff_toNat_lt]

/-! ## The order of spans -/

theorem le_iff : le s t = true ↔ s.1.toNat < t.1.toNat ∨ s.1.toNat = t.1.toNat ∧ s.2.toNat ≤ t.2.toNat := by
  simp only [le, Bool.or_eq_true, Bool.and_eq_true, decide_eq_true_eq, beq_iff_eq, UInt64.lt_iff_toNat_lt,
    UInt64.le_iff_toNat_le, UInt64.toNat_inj]

theorem pairwise_mergeSort (spans : List Span) :
    (spans.mergeSort le).Pairwise fun s t => s.1.toNat ≤ t.1.toNat := by
  have htrans : ∀ a b c : Span, le a b = true → le b c = true → le a c = true := by
    intro a b c
    simp only [le_iff]
    omega
  have htotal : ∀ a b : Span, (le a b || le b a) = true := by
    intro a b
    simp only [Bool.or_eq_true, le_iff]
    omega
  refine (List.pairwise_mergeSort htrans htotal spans).imp fun {s t} hst => ?_
  rw [le_iff] at hst
  omega

/-! ## Joining -/

/-- Joining spans neither adds nor loses an address, as long as they are in order. -/
theorem exists_mem_join {a : Address} (hsorted : (s :: rest).Pairwise fun s t => s.1.toNat ≤ t.1.toNat) :
    (∃ t ∈ join s rest, t.Holds a) ↔ ∃ t ∈ s :: rest, t.Holds a := by
  induction rest generalizing s with
  | nil => rfl
  | cons t rest ih =>
    obtain ⟨hs, ht⟩ := List.pairwise_cons.1 hsorted
    have hst : s.1.toNat ≤ t.1.toNat := hs t (by simp)
    rw [join]
    split
    · rename_i htouch
      rw [UInt64.le_iff_toNat_le] at htouch
      have hboth : Holds (s.1, max s.2 t.2) a ↔ s.Holds a ∨ t.Holds a := by
        simp only [holds_iff, Word.toNat_max]
        omega
      have hrest : ((s.1, max s.2 t.2) :: rest : List Span).Pairwise fun s t => s.1.toNat ≤ t.1.toNat :=
        List.pairwise_cons.2 ⟨fun u hu => hs u (by simp [hu]), (List.pairwise_cons.1 ht).2⟩
      rw [ih hrest]
      simp only [List.mem_cons, exists_eq_or_imp, hboth, or_assoc]
    · have hjoin := ih ht
      simp only [List.mem_cons, exists_eq_or_imp] at hjoin ⊢
      rw [hjoin]

theorem le_of_mem_join {k : Nat} (hs : k ≤ s.1.toNat) (hrest : ∀ t ∈ rest, k ≤ t.1.toNat) :
    ∀ u ∈ join s rest, k ≤ u.1.toNat := by
  induction rest generalizing s with
  | nil => simpa [join] using hs
  | cons t rest ih =>
    have ht := hrest t (by simp)
    have hrest' : ∀ u ∈ rest, k ≤ u.1.toNat := fun u hu => hrest u (by simp [hu])
    intro u hu
    rw [join] at hu
    split at hu
    · exact ih (s := (s.1, max s.2 t.2)) hs hrest' u hu
    · rcases List.mem_cons.1 hu with rfl | hu
      · exact hs
      · exact ih ht hrest' u hu

theorem pairwise_join (hsorted : (s :: rest).Pairwise fun s t => s.1.toNat ≤ t.1.toNat) :
    (join s rest).Pairwise fun s t => s.2.toNat < t.1.toNat := by
  induction rest generalizing s with
  | nil => simp [join]
  | cons t rest ih =>
    obtain ⟨hs, ht⟩ := List.pairwise_cons.1 hsorted
    rw [join]
    split
    · exact ih (List.pairwise_cons.2 ⟨fun u hu => hs u (by simp [hu]), (List.pairwise_cons.1 ht).2⟩)
    · rename_i hgap
      rw [UInt64.not_le, UInt64.lt_iff_toNat_lt] at hgap
      refine List.pairwise_cons.2 ⟨fun u hu => ?_, ih ht⟩
      have htu := le_of_mem_join (Nat.le_refl _) (List.pairwise_cons.1 ht).1 u hu
      omega

/-- Every span lies in one of the joined spans. -/
theorem exists_covering_join (hsorted : (s :: rest).Pairwise fun s t => s.1.toNat ≤ t.1.toNat) :
    ∀ u ∈ s :: rest, ∃ t ∈ join s rest, t.1.toNat ≤ u.1.toNat ∧ u.2.toNat ≤ t.2.toNat := by
  induction rest generalizing s with
  | nil =>
    intro u hu
    exact ⟨u, hu, Nat.le_refl _, Nat.le_refl _⟩
  | cons t rest ih =>
    obtain ⟨hs, ht⟩ := List.pairwise_cons.1 hsorted
    have hst : s.1.toNat ≤ t.1.toNat := hs t (by simp)
    intro u hu
    rw [join]
    split
    · have hrest : ((s.1, max s.2 t.2) :: rest : List Span).Pairwise fun s t => s.1.toNat ≤ t.1.toNat :=
        List.pairwise_cons.2 ⟨fun u hu => hs u (by simp [hu]), (List.pairwise_cons.1 ht).2⟩
      rcases List.mem_cons.1 hu with rfl | hu
      · obtain ⟨v, hv, hlo, hhi⟩ := ih hrest _ List.mem_cons_self
        rw [Word.toNat_max] at hhi
        exact ⟨v, hv, hlo, by omega⟩
      · rcases List.mem_cons.1 hu with rfl | hu
        · obtain ⟨v, hv, hlo, hhi⟩ := ih hrest _ List.mem_cons_self
          rw [Word.toNat_max] at hhi
          exact ⟨v, hv, Nat.le_trans hlo hst, by omega⟩
        · exact ih hrest u (List.mem_cons_of_mem _ hu)
    · rcases List.mem_cons.1 hu with rfl | hu
      · exact ⟨u, List.mem_cons_self, Nat.le_refl _, Nat.le_refl _⟩
      · obtain ⟨v, hv, hcovers⟩ := ih ht u hu
        exact ⟨v, List.mem_cons_of_mem _ hv, hcovers⟩

/-- Every joined span starts where one of the spans in it starts. -/
theorem exists_first_join : ∀ t ∈ join s rest, ∃ u ∈ s :: rest, u.1 = t.1 ∧ u.2.toNat ≤ t.2.toNat := by
  induction rest generalizing s with
  | nil =>
    intro t ht
    exact ⟨t, ht, rfl, Nat.le_refl _⟩
  | cons t rest ih =>
    intro v hv
    rw [join] at hv
    split at hv
    · obtain ⟨u, hu, hlo, hhi⟩ := ih v hv
      rcases List.mem_cons.1 hu with rfl | hu
      · rw [Word.toNat_max] at hhi
        exact ⟨s, List.mem_cons_self, hlo, by omega⟩
      · exact ⟨u, List.mem_cons_of_mem _ (List.mem_cons_of_mem _ hu), hlo, hhi⟩
    · rcases List.mem_cons.1 hv with rfl | hv
      · exact ⟨v, List.mem_cons_self, rfl, Nat.le_refl _⟩
      · obtain ⟨u, hu, hfirst⟩ := ih v hv
        exact ⟨u, List.mem_cons_of_mem _ hu, hfirst⟩

/-! ## Merging -/

theorem exists_mem_merged (spans : List Span) (a : Address) :
    (∃ t ∈ merged spans, t.Holds a) ↔ ∃ t ∈ spans, t.Holds a := by
  have hsorted := pairwise_mergeSort spans
  have hmem : (∃ t ∈ spans.mergeSort le, t.Holds a) ↔ ∃ t ∈ spans, t.Holds a := by
    simp only [List.mem_mergeSort]
  rw [merged, ← hmem]
  cases hsort : spans.mergeSort le with
  | nil => rfl
  | cons s rest =>
    rw [hsort] at hsorted
    exact exists_mem_join hsorted

theorem pairwise_merged (spans : List Span) : (merged spans).Pairwise fun s t => s.2.toNat < t.1.toNat := by
  have hsorted := pairwise_mergeSort spans
  rw [merged]
  cases hsort : spans.mergeSort le with
  | nil => exact List.Pairwise.nil
  | cons s rest =>
    rw [hsort] at hsorted
    exact pairwise_join hsorted

theorem exists_covering (hs : s ∈ spans) :
    ∃ t ∈ merged spans, t.1.toNat ≤ s.1.toNat ∧ s.2.toNat ≤ t.2.toNat := by
  have hsorted := pairwise_mergeSort spans
  have hmem : s ∈ spans.mergeSort le := List.mem_mergeSort.2 hs
  rw [merged]
  cases hsort : spans.mergeSort le with
  | nil =>
    rw [hsort] at hmem
    cases hmem
  | cons u rest =>
    rw [hsort] at hsorted hmem
    exact exists_covering_join hsorted s hmem

theorem exists_first (ht : t ∈ merged spans) : ∃ s ∈ spans, s.1 = t.1 ∧ s.2.toNat ≤ t.2.toNat := by
  rw [merged] at ht
  cases hsort : spans.mergeSort le with
  | nil =>
    rw [hsort] at ht
    cases ht
  | cons u rest =>
    rw [hsort] at ht
    obtain ⟨s, hs, hfirst⟩ := exists_first_join t ht
    rw [← hsort, List.mem_mergeSort] at hs
    exact ⟨s, hs, hfirst⟩

/-- Spans that do not end before they start are merged to such spans. -/
theorem le_of_mem_merged (hle : ∀ s ∈ spans, s.1 ≤ s.2) (ht : t ∈ merged spans) : t.1 ≤ t.2 := by
  obtain ⟨s, hs, hlo, hhi⟩ := exists_first ht
  exact UInt64.le_trans (hlo ▸ hle s hs) (UInt64.le_iff_toNat_le.2 hhi)

theorem mem_of_empty_mem_merged (hle : ∀ s ∈ spans, s.1 ≤ s.2) {a : Address} (ha : (a, a) ∈ merged spans) :
    (a, a) ∈ spans := by
  obtain ⟨⟨lo, hi⟩, hs, rfl, hhi⟩ := exists_first ha
  have hlo : lo ≤ hi := hle _ hs
  obtain rfl : hi = lo := UInt64.le_antisymm (UInt64.le_iff_toNat_le.2 hhi) hlo
  exact hs

/-! ## Gaps -/

theorem apart_of_ne (hgaps : spans.Pairwise fun s t => s.2.toNat < t.1.toNat) (hs : s ∈ spans) (ht : t ∈ spans)
    (hne : s ≠ t) : s.2.toNat < t.1.toNat ∨ t.2.toNat < s.1.toNat := by
  have : Std.Symm fun s t : Span => s.2.toNat < t.1.toNat ∨ t.2.toNat < s.1.toNat := ⟨fun _ _ => Or.symm⟩
  have hapart : spans.Pairwise fun s t => s.2.toNat < t.1.toNat ∨ t.2.toNat < s.1.toNat := hgaps.imp Or.inl
  exact hapart.forall hs ht hne

/-- Two spans with a gap between any two hold no addresses next to each other. -/
theorem eq_of_adjacent (hgaps : spans.Pairwise fun s t => s.2.toNat < t.1.toNat) (hs : s ∈ spans) (ht : t ∈ spans)
    {k : Nat} (hk : s.1.toNat ≤ k ∧ k < s.2.toNat) (hk' : t.1.toNat ≤ k + 1 ∧ k + 1 < t.2.toNat) : s = t := by
  by_contra hne
  have := apart_of_ne hgaps hs ht hne
  omega

theorem holds_iff_of_touches {a : Address} :
    t.Holds a ∨ t.Holds (a - 1) ↔ t.1.toNat ≤ a.toNat ∧ a.toNat ≤ t.2.toNat ∧ t.1.toNat < t.2.toNat := by
  have ha := a.toNat_lt
  have ht := t.2.toNat_lt
  have hpred : (a - 1).toNat = (2 ^ 64 - 1 + a.toNat) % 2 ^ 64 := UInt64.toNat_sub a 1
  rw [holds_iff, holds_iff, hpred]
  omega

/-- A merged span is empty if it was there from the start, and no address next to it is held. -/
theorem empty_mem_merged_iff (hle : ∀ s ∈ spans, s.1 ≤ s.2) {a : Address} :
    (a, a) ∈ merged spans ↔ (a, a) ∈ spans ∧ ¬∃ t ∈ merged spans, t.Holds a ∨ t.Holds (a - 1) := by
  constructor
  · refine fun ha => ⟨mem_of_empty_mem_merged hle ha, ?_⟩
    rintro ⟨t, ht, hholds⟩
    rw [holds_iff_of_touches] at hholds
    have hne : t ≠ (a, a) := by
      rintro rfl
      exact Nat.lt_irrefl _ hholds.2.2
    have hapart := apart_of_ne (pairwise_merged spans) ht ha hne
    dsimp only at hapart
    omega
  · rintro ⟨ha, hnone⟩
    obtain ⟨⟨lo, hi⟩, ht, hlo, hhi⟩ := exists_covering ha
    dsimp only at hlo hhi
    -- a span that is not empty holds an address next to any that it touches
    have hempty : ¬lo.toNat < hi.toNat := fun hlt => hnone ⟨_, ht, holds_iff_of_touches.2 ⟨hlo, hhi, hlt⟩⟩
    obtain rfl : lo = a := UInt64.toNat_inj.1 (by omega)
    obtain rfl : hi = lo := UInt64.toNat_inj.1 (by omega)
    exact ht

/-- It makes no difference whether some of the spans were merged before. -/
theorem empty_mem_merged_append_iff {more : List Span} (hle : ∀ s ∈ spans ++ more, s.1 ≤ s.2) {a : Address} :
    (a, a) ∈ merged (merged spans ++ more) ↔ (a, a) ∈ spans ++ more ∧
      ¬∃ t ∈ merged (merged spans ++ more), t.Holds a ∨ t.Holds (a - 1) := by
  have hspans : ∀ s ∈ spans, s.1 ≤ s.2 := fun s hs => hle s (List.mem_append_left _ hs)
  have hmore : ∀ s ∈ more, s.1 ≤ s.2 := fun s hs => hle s (List.mem_append_right _ hs)
  rw [empty_mem_merged_iff fun s hs => (List.mem_append.1 hs).elim (le_of_mem_merged hspans) (hmore s), List.mem_append,
    List.mem_append]
  refine and_congr_left fun hnone => or_congr_left ?_
  rw [empty_mem_merged_iff hspans]
  refine and_iff_left_of_imp fun _ => ?_
  -- what the spans merged before hold, all of them hold together
  rintro ⟨t, ht, hholds | hholds⟩
  · obtain ⟨u, hu, hu'⟩ := (exists_mem_merged (merged spans ++ more) a).2 ⟨t, List.mem_append_left _ ht, hholds⟩
    exact hnone ⟨u, hu, .inl hu'⟩
  · obtain ⟨u, hu, hu'⟩ := (exists_mem_merged (merged spans ++ more) (a - 1)).2 ⟨t, List.mem_append_left _ ht, hholds⟩
    exact hnone ⟨u, hu, .inr hu'⟩

/-- Addresses in a row that merged spans hold all lie in one of them. -/
theorem exists_mem_of_run (hgaps : spans.Pairwise fun s t => s.2.toNat < t.1.toNat) {k n : Nat} (hn : 0 < n)
    (hrun : ∀ i < n, ∃ t ∈ spans, t.1.toNat ≤ k + i ∧ k + i < t.2.toNat) :
    ∃ t ∈ spans, t.1.toNat ≤ k ∧ k + n ≤ t.2.toNat := by
  induction n with
  | zero => exact absurd hn (Nat.lt_irrefl 0)
  | succ n ih =>
    obtain ⟨t, ht, hlo, hhi⟩ := hrun n (Nat.lt_succ_self n)
    rcases Nat.eq_zero_or_pos n with rfl | hpos
    · exact ⟨t, ht, by omega, by omega⟩
    · obtain ⟨s, hs, hslo, hshi⟩ := ih hpos fun i hi => hrun i (by omega)
      -- the span of the last address and that of the ones before it meet, so they are one
      obtain rfl := eq_of_adjacent hgaps hs ht (k := k + (n - 1)) ⟨by omega, by omega⟩ ⟨by omega, by omega⟩
      exact ⟨s, hs, hslo, by omega⟩

end PathReplay.Span
