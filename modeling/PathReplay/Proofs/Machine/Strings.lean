import PathReplay.Machine.Strings
import PathReplay.Proofs.Memory.Contents

/-!
# Strings in memory

* `LacksNul` : no unit of a run of bytes is all zero; `LacksNul.append`, `LacksNul.take`, `not_lacksNul_append` : of
  which parts that can be told;
* `LongestText` : the longest run of whole units, from the beginning of a run of bytes, that lacks a nul;
  `LongestText.unique`, `longestText_of_terminated` : there is one, and it ends before the first nul;
* `readString_longest` : the string at an address is the one in the memory there;
* `readString_of_read` : where a text with a nul after it is read, the string is that text, as far as it is searched.
-/

namespace PathReplay

variable {unit : Nat} {a b data text text' : Bytes}

/-! ## Runs of units -/

/-- No unit of a run of bytes is all zero. -/
def LacksNul (unit : Nat) (data : Bytes) : Prop :=
  ∀ k, (k + 1) * unit ≤ data.length → (data.drop (k * unit)).take unit ≠ List.replicate unit 0

theorem lacksNul_nil (hunit : 0 < unit) : LacksNul unit [] := fun k hk =>
  absurd hk (Nat.not_le_of_lt (Nat.mul_pos (Nat.succ_pos k) hunit))

theorem lacksNul_of_ne (hunit : 0 < unit) (hlength : data.length = unit) (h : data ≠ List.replicate unit 0) :
    LacksNul unit data := by
  intro k hk
  have hone : (k + 1) * unit ≤ 1 * unit := Nat.le_trans hk (by rw [hlength, Nat.one_mul])
  obtain rfl : k = 0 := Nat.le_zero.1 (Nat.le_of_succ_le_succ (Nat.le_of_mul_le_mul_right hone hunit))
  rwa [Nat.zero_mul, List.drop_zero, ← hlength, List.take_length, hlength]

theorem LacksNul.take (h : LacksNul unit data) (n : Nat) : LacksNul unit (data.take n) := by
  intro k hk
  rw [List.length_take, Nat.add_mul, Nat.one_mul] at hk
  rw [List.drop_take, List.take_take, Nat.min_eq_left (by omega)]
  exact h k (by rw [Nat.add_mul, Nat.one_mul]; omega)

theorem LacksNul.drop (h : LacksNul unit data) : LacksNul unit (data.drop unit) := by
  intro k hk
  rw [List.length_drop, Nat.add_mul, Nat.one_mul] at hk
  have hnext := h (k + 1) (by rw [Nat.add_mul, Nat.add_mul, Nat.one_mul]; omega)
  rwa [List.drop_drop, show unit + k * unit = (k + 1) * unit by rw [Nat.add_mul, Nat.one_mul, Nat.add_comm]]

/-- A run of bytes lacks a nul if two parts do of which the first has whole units. -/
theorem LacksNul.append (ha : LacksNul unit a) (haligned : unit ∣ a.length) (hb : LacksNul unit b) :
    LacksNul unit (a ++ b) := by
  obtain ⟨c, hc⟩ := haligned
  rw [Nat.mul_comm] at hc
  intro k hk
  rw [List.length_append] at hk
  by_cases hlt : k < c
  · have hfit : (k + 1) * unit ≤ a.length := hc ▸ Nat.mul_le_mul_right unit hlt
    have hsum : (k + 1) * unit = k * unit + unit := by rw [Nat.add_mul, Nat.one_mul]
    rw [List.drop_append_of_le_length (by omega), List.take_append_of_le_length (by rw [List.length_drop]; omega)]
    exact ha k hfit
  · obtain ⟨j, rfl⟩ := Nat.exists_eq_add_of_le (Nat.le_of_not_lt hlt)
    have hsum : (c + j + 1) * unit = a.length + (j + 1) * unit := by rw [hc, ← Nat.add_mul, Nat.add_assoc]
    have hdrop : (a ++ b).drop ((c + j) * unit) = b.drop (j * unit) := by
      rw [Nat.add_mul, ← hc, ← List.drop_drop, List.drop_left]
    rw [hdrop]
    exact hb j (by omega)

/-- A nul after whole units is seen. -/
theorem not_lacksNul_append (haligned : unit ∣ a.length) :
    ¬ LacksNul unit (a ++ (List.replicate unit 0 ++ b)) := by
  obtain ⟨c, hc⟩ := haligned
  rw [Nat.mul_comm] at hc
  intro h
  refine h c ?_ ?_
  · simp only [List.length_append, List.length_replicate, hc, Nat.add_mul]
    omega
  · rw [← hc, List.drop_left, List.take_left' List.length_replicate]

/-! ## The longest text -/

/-- A run of whole units without a nul, the longest from the beginning of a run of bytes. -/
structure LongestText (unit : Nat) (data text : Bytes) : Prop where
  initial : text <+: data
  aligned : unit ∣ text.length
  lacks : LacksNul unit text
  longest : ∀ n ≤ data.length, unit ∣ n → LacksNul unit (data.take n) → n ≤ text.length

theorem LongestText.unique (h : LongestText unit data text) (h' : LongestText unit data text') : text = text' := by
  have hle : ∀ {s t : Bytes}, LongestText unit data s → LongestText unit data t → s.length ≤ t.length := fun hs ht =>
    ht.longest _ hs.initial.length_le hs.aligned (List.prefix_iff_eq_take.1 hs.initial ▸ hs.lacks)
  rw [List.prefix_iff_eq_take.1 h.initial, List.prefix_iff_eq_take.1 h'.initial,
    Nat.le_antisymm (hle h h') (hle h' h)]

theorem longestText_nil (hunit : 0 < unit) (h : data.length < unit ∨ data.take unit = List.replicate unit 0) :
    LongestText unit data [] := by
  refine ⟨List.nil_prefix, Nat.dvd_zero _, lacksNul_nil hunit, fun n hn haligned hlacks => ?_⟩
  refine Nat.le_of_not_lt fun hpos => ?_
  have hle := Nat.le_of_dvd hpos haligned
  rcases h with hshort | hnul
  · omega
  · refine hlacks 0 ?_ ?_
    · rw [List.length_take_of_le hn]
      omega
    · rwa [Nat.zero_mul, List.drop_zero, List.take_take, Nat.min_eq_left hle]

/-- A unit that is not a nul belongs to the longest text, which goes on behind it. -/
theorem LongestText.append (hunit : 0 < unit) (hlength : a.length = unit) (hne : a ≠ List.replicate unit 0)
    (h : LongestText unit data text) : LongestText unit (a ++ data) (a ++ text) := by
  refine ⟨(List.prefix_append_right_inj a).2 h.initial, ?_, ?_, fun n hn haligned hlacks => ?_⟩
  · rw [List.length_append, hlength]
    exact Nat.dvd_add (Nat.dvd_refl unit) h.aligned
  · exact (lacksNul_of_ne hunit hlength hne).append (hlength.symm ▸ Nat.dvd_refl unit) h.lacks
  · rw [List.length_append] at hn ⊢
    rcases Nat.eq_zero_or_pos n with rfl | hpos
    · exact Nat.zero_le _
    · have hle := Nat.le_of_dvd hpos haligned
      have hbehind : ((a ++ data).take n).drop unit = data.take (n - unit) := by
        rw [List.drop_take, List.drop_left' hlength]
      have hmore := h.longest (n - unit) (by omega) (Nat.dvd_sub haligned (Nat.dvd_refl unit)) (hbehind ▸ hlacks.drop)
      omega

/-- Units are taken up to the first nul. -/
theorem longestText_takeUnits (hunit : 0 < unit) (count : Nat) (hlength : data.length = count * unit) :
    LongestText unit data (takeUnits unit count data) := by
  induction count generalizing data with
  | zero => exact longestText_nil hunit (.inl (by omega))
  | succ count ih =>
    have hsum : data.length = unit + count * unit := by rw [hlength, Nat.add_mul, Nat.one_mul, Nat.add_comm]
    have hfirst : (data.take unit).length = unit := List.length_take_of_le (by omega)
    have hzero : (data.take unit).all (· == 0) = true ↔ data.take unit = List.replicate unit 0 := by
      simp [List.eq_replicate_iff, hfirst]
    rw [takeUnits]
    split
    · rename_i hnul
      exact longestText_nil hunit (.inr (hzero.1 hnul))
    · rename_i hnul
      have hrest : LongestText unit (data.drop unit) (takeUnits unit count (data.drop unit)) :=
        ih (by rw [List.length_drop]; omega)
      have htext := hrest.append hunit hfirst fun h => hnul (hzero.2 h)
      rwa [List.take_append_drop] at htext

/-- A text with a nul after it is the longest, unless that reaches beyond the limit. -/
theorem longestText_of_terminated {limit : Nat} (hlimit : unit ∣ limit) (haligned : unit ∣ text.length)
    (hlacks : LacksNul unit text) :
    LongestText unit ((text ++ (List.replicate unit 0 ++ b)).take limit) (text.take limit) := by
  refine ⟨?_, ?_, hlacks.take limit, fun n hn hn' hn'' => ?_⟩
  · rw [List.take_append]
    exact List.prefix_append _ _
  · rw [List.length_take]
    rcases Nat.le_total limit text.length with hle | hle
    · rwa [Nat.min_eq_left hle]
    · rwa [Nat.min_eq_right hle]
  · rw [List.length_take] at hn ⊢
    rw [List.take_take, Nat.min_eq_left (by omega)] at hn''
    refine Nat.le_min.2 ⟨by omega, Nat.le_of_not_lt fun hlt => ?_⟩
    have hmore := Nat.le_of_dvd (Nat.sub_pos_of_lt hlt) (Nat.dvd_sub hn' haligned)
    rw [List.take_append, List.take_of_length_le (Nat.le_of_lt hlt), List.take_append, List.length_replicate,
      List.take_of_length_le (by rw [List.length_replicate]; exact hmore)] at hn''
    exact not_lacksNul_append haligned hn''

/-! ## Reading -/

namespace Memory

variable {m : Memory} {p : Address}

theorem read_add (m : Memory) (p : Address) (n k : Nat) :
    m.read p (n + k) = m.read p n ++ m.read (p + UInt64.ofNat n) k := by
  simp only [read_eq_map, List.range_add, List.map_append, List.map_map, add_ofNat_add, Function.comp_def]

theorem take_read (m : Memory) (p : Address) {n k : Nat} (h : n ≤ k) : (m.read p k).take n = m.read p n := by
  obtain ⟨j, rfl⟩ := Nat.exists_eq_add_of_le h
  rw [read_add, List.take_left' (m.length_read p n)]

end Memory

namespace Machine

variable {m : Machine} {p : Address}

theorem dvd_stringLimit (m : Machine) (unit : Nat) : unit ∣ m.stringLimit unit := Nat.dvd_sub_mod _

/-- The string at an address is the longest text in the memory there, as far as it is searched. -/
theorem readString_longest (hunit : 0 < unit) (m : Machine) (p : Address) :
    LongestText unit (m.memory.read p (m.stringLimit unit)) (m.readString p unit) := by
  rw [readString, Nat.max_eq_left hunit]
  exact longestText_takeUnits hunit _ (by rw [Memory.length_read, Nat.div_mul_cancel (m.dvd_stringLimit unit)])

theorem length_readString_le (hunit : 0 < unit) (m : Machine) (p : Address) :
    (m.readString p unit).length ≤ m.stringLimit unit :=
  Nat.le_trans (m.readString_longest hunit p).initial.length_le (by rw [Memory.length_read])

theorem read_length_readString (hunit : 0 < unit) (m : Machine) (p : Address) :
    m.memory.read p (m.readString p unit).length = m.readString p unit := by
  rw [← m.memory.take_read p (length_readString_le hunit m p)]
  exact (List.prefix_iff_eq_take.1 (m.readString_longest hunit p).initial).symm

/-- Where a text with a nul after it is read, the string is that text. -/
theorem readString_of_read (hunit : 0 < unit) (haligned : unit ∣ text.length) (hlacks : LacksNul unit text)
    (hread : m.memory.read p (text.length + unit) = text ++ List.replicate unit 0) :
    m.readString p unit = text.take (m.stringLimit unit) := by
  refine (m.readString_longest hunit p).unique ?_
  have hlonger := m.memory.read_add p (text.length + unit) (m.stringLimit unit)
  rw [← m.memory.take_read p (Nat.le_add_left (m.stringLimit unit) (text.length + unit)), hlonger, hread,
    List.append_assoc]
  exact longestText_of_terminated (m.dvd_stringLimit unit) haligned hlacks

end Machine
end PathReplay
