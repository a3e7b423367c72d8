import Mathlib.Data.List.Induction
import PathReplay.CommandLine.Run
import PathReplay.Proofs.Text.Trimming

/-!
# The grammar of addresses

* `Digits.IsHexDigit`, `Digits.Numeral`, `Digits.Written` : hexadecimal digits, runs of them, and those that are 64-bit
  numbers, with a plus sign or without;
* `Digits.digit?_eq_some_iff`, `value?_eq_some_iff`, `word?_eq_some_iff` : they are what is read, and with their value;
* `Digits.numeral_digits`, `Numeral.upper` : the digits of a number are such a run, in either case;
* `CommandLine.Spells` : the ways to spell an address; `parseAddress?_eq_some_iff` : they are those that are read;
* `CommandLine.address_exact` : every other text is the failure that names it.
-/

namespace PathReplay

/-! ## Hexadecimal numbers -/

namespace Digits

variable {c : Char} {cs : List Char} {d n : Nat} {v : UInt64}

/-- A digit below sixteen, in either case. -/
def IsHexDigit (c : Char) (d : Nat) : Prop := d < 16 ∧ (c = Nat.digitChar d ∨ c = (Nat.digitChar d).toUpper)

/-- One or more digits, the most significant first, and their value. -/
inductive Numeral : List Char → Nat → Prop where
  | digit {c : Char} {d : Nat} (h : IsHexDigit c d) : Numeral [c] d
  | snoc {cs : List Char} {c : Char} {n d : Nat} (h : Numeral cs n) (hc : IsHexDigit c d) :
    Numeral (cs ++ [c]) (16 * n + d)

/-- A 64-bit number: digits with or without a plus sign in front, whose value is in range. -/
inductive Written : List Char → UInt64 → Prop where
  | plain {cs : List Char} {v : UInt64} (h : Numeral cs v.toNat) : Written cs v
  | plus {cs : List Char} {v : UInt64} (h : Numeral cs v.toNat) : Written ('+' :: cs) v

/-- A character is read as a digit by the range it is in. -/
theorem toNat_of_digit? (h : digit? 16 c = some d) :
    c.toNat = 48 + d ∧ d < 10 ∨ c.toNat = 87 + d ∧ 10 ≤ d ∨ c.toNat = 55 + d ∧ 10 ≤ d := by
  unfold digit? at h
  dsimp only at h
  obtain ⟨hbase, hvalue⟩ := Option.ite_none_right_eq_some.1 h
  by_cases hdigit : c.isDigit = true
  · rw [if_pos hdigit, Option.some_inj] at hvalue
    have hrange : 48 ≤ c.toNat ∧ c.toNat ≤ 57 := Char.isDigit_iff_toNat.1 hdigit
    change c.toNat - 48 = d at hvalue
    omega
  rw [if_neg hdigit] at hbase hvalue
  by_cases hlow : c.isLower = true
  · rw [if_pos hlow, Option.some_inj] at hvalue
    obtain ⟨hlo, hhi⟩ := Bool.and_eq_true_iff.1 hlow
    have hrange : 97 ≤ c.toNat ∧ c.toNat ≤ 122 :=
      ⟨UInt32.le_iff_toNat_le.1 (of_decide_eq_true hlo), UInt32.le_iff_toNat_le.1 (of_decide_eq_true hhi)⟩
    change c.toNat - 97 + 10 = d at hvalue
    omega
  rw [if_neg hlow] at hbase hvalue
  by_cases hup : c.isUpper = true
  · rw [if_pos hup, Option.some_inj] at hvalue
    have hrange : 65 ≤ c.toNat ∧ c.toNat ≤ 90 :=
      (of_decide_eq_true hup).imp UInt32.le_iff_toNat_le.1 UInt32.le_iff_toNat_le.1
    change c.toNat - 65 + 10 = d at hvalue
    omega
  · rw [if_neg hup] at hbase
    omega

theorem digit?_eq_some_iff : digit? 16 c = some d ↔ IsHexDigit c d := by
  constructor
  · intro h
    have hnames : ∀ d < 16, (Nat.digitChar d).toNat = (if d < 10 then 48 + d else 87 + d) ∧
        (10 ≤ d → (Nat.digitChar d).toUpper.toNat = 55 + d) := by decide
    have hlt : d < 16 := digit?_lt h
    obtain ⟨hlower, hupper⟩ := hnames d hlt
    refine ⟨hlt, ?_⟩
    rw [← Char.toNat_inj, ← Char.toNat_inj, hlower]
    obtain ⟨hc, hd⟩ | ⟨hc, hd⟩ | ⟨hc, hd⟩ := toNat_of_digit? h
    · exact .inl (hc.trans (if_pos hd).symm)
    · exact .inl (hc.trans (if_neg (Nat.not_lt.2 hd)).symm)
    · exact .inr (hc.trans (hupper hd).symm)
  · rintro ⟨hlt, rfl | rfl⟩ <;> revert hlt d <;> decide

/-! ### Runs of digits -/

theorem numeral_concat_iff : Numeral (cs ++ [c]) n ↔
    ∃ m d, (cs = [] ∧ m = 0 ∨ Numeral cs m) ∧ IsHexDigit c d ∧ 16 * m + d = n := by
  constructor
  · intro h
    generalize hl : cs ++ [c] = l at h
    cases h with
    | digit h =>
      obtain ⟨rfl, hlast⟩ := List.append_inj' (show cs ++ [c] = [] ++ [_] from hl) rfl
      obtain rfl := List.singleton_inj.1 hlast
      exact ⟨0, n, .inl ⟨rfl, rfl⟩, h, by omega⟩
    | snoc h hc =>
      obtain ⟨rfl, hlast⟩ := List.append_inj' hl rfl
      obtain rfl := List.singleton_inj.1 hlast
      exact ⟨_, _, .inr h, hc, rfl⟩
  · rintro ⟨m, d, ⟨rfl, rfl⟩ | h, hc, rfl⟩
    · rw [Nat.mul_zero, Nat.zero_add]
      exact .digit hc
    · exact .snoc h hc

theorem Numeral.ne_nil (h : Numeral cs n) : cs ≠ [] := by
  cases h <;> simp

theorem valueFrom?_concat (base m : Nat) (cs : List Char) (c : Char) :
    valueFrom? base m (cs ++ [c]) =
      (valueFrom? base m cs).bind fun n => (digit? base c).map fun d => base * n + d := by
  induction cs generalizing m with
  | nil => cases h : digit? base c <;> simp [valueFrom?, h]
  | cons x cs ih =>
    rw [List.cons_append, valueFrom?, valueFrom?]
    cases digit? base x with
    | none => rfl
    | some d => exact ih _

/-- Nothing at all has the value zero, until it is refused. -/
theorem valueFrom?_eq_some_iff : valueFrom? 16 0 cs = some n ↔ cs = [] ∧ n = 0 ∨ Numeral cs n := by
  induction cs using List.reverseRecOn generalizing n with
  | nil =>
    have hnone : ¬ Numeral [] n := fun h => h.ne_nil rfl
    simp [valueFrom?, hnone, eq_comm]
  | append_singleton cs c ih =>
    rw [valueFrom?_concat, numeral_concat_iff]
    simp [Option.bind_eq_some_iff, digit?_eq_some_iff, ih]

/-- What is read as the value of digits is a run of digits with that value. -/
theorem value?_eq_some_iff : value? 16 cs = some n ↔ Numeral cs n := by
  unfold value?
  cases cs with
  | nil => exact iff_of_false (by simp) fun h => h.ne_nil rfl
  | cons c cs => simp [valueFrom?_eq_some_iff]

theorem Numeral.isHexDigit (h : Numeral cs n) : ∀ c ∈ cs, ∃ d, IsHexDigit c d := by
  induction h with
  | digit h => simpa using ⟨_, h⟩
  | snoc _ hc ih =>
    intro c hmem
    rcases List.mem_append.1 hmem with hmem | hmem
    · exact ih c hmem
    · obtain rfl := List.mem_singleton.1 hmem
      exact ⟨_, hc⟩

/-! ### 64-bit numbers -/

theorem IsHexDigit.ne (h : IsHexDigit c d) : c ∉ ['+', 'x', 'X', 'h', 'H'] ∧ Text.isBlank c = false := by
  have hdigits : ∀ d < 16,
      (Nat.digitChar d ∉ ['+', 'x', 'X', 'h', 'H'] ∧ Text.isBlank (Nat.digitChar d) = false) ∧
        (Nat.digitChar d).toUpper ∉ ['+', 'x', 'X', 'h', 'H'] ∧ Text.isBlank (Nat.digitChar d).toUpper = false := by
    decide
  obtain ⟨hlt, rfl | rfl⟩ := h
  · exact (hdigits d hlt).1
  · exact (hdigits d hlt).2

theorem word?_eq_some_iff : word? 16 cs = some v ↔ Written cs v := by
  have hread : ∀ ds : List Char, (value? 16 ds).bind (fun n =>
      if n < UInt64.size then some (UInt64.ofNat n) else none) = some v ↔ Numeral ds v.toNat := by
    intro ds
    rw [Option.bind_eq_some_iff, ← value?_eq_some_iff]
    constructor
    · rintro ⟨n, hn, hword⟩
      obtain ⟨hlt, hv⟩ := Option.ite_none_right_eq_some.1 hword
      rw [hn, ← Option.some_inj.1 hv, UInt64.toNat_ofNat', Nat.mod_eq_of_lt hlt]
    · intro hn
      refine ⟨v.toNat, hn, ?_⟩
      rw [if_pos v.toNat_lt_size, UInt64.ofNat_toNat]
  have hplus : ∀ {ds : List Char} {n : Nat}, ¬ Numeral ('+' :: ds) n := by
    intro ds n h
    obtain ⟨d, hd⟩ := h.isHexDigit '+' List.mem_cons_self
    exact hd.ne.1 (by simp)
  unfold word?
  dsimp only
  rw [hread]
  split
  · constructor
    · exact .plus
    · rintro (h | h)
      · exact absurd h hplus
      · exact h
  · rename_i hno
    constructor
    · exact .plain
    · rintro (h | h)
      · exact h
      · exact absurd rfl (hno _)

theorem Written.mem (h : Written cs v) : ∀ c ∈ cs, c = '+' ∨ ∃ d, IsHexDigit c d := by
  intro c hc
  cases h with
  | plain h => exact .inr (h.isHexDigit c hc)
  | plus h =>
    rcases List.mem_cons.1 hc with rfl | hc
    · exact .inl rfl
    · exact .inr (h.isHexDigit c hc)

/-- No mark of a base is a digit. -/
theorem Written.notMem (h : Written cs v) {x : Char} (hx : x ∈ ['x', 'X', 'h', 'H']) : x ∉ cs := by
  intro hmem
  obtain rfl | ⟨d, hd⟩ := h.mem x hmem
  · simp at hx
  · exact hd.ne.1 (List.mem_cons_of_mem _ hx)

/-! ### The digits of a number -/

theorem numeral_digits (n : Nat) : Numeral (Hex.digits n) n := by
  induction n using Nat.strongRecOn with
  | ind n ih =>
    unfold Hex.digits at ih ⊢
    by_cases hlt : n < 16
    · rw [Nat.toDigits_of_lt_base hlt]
      exact .digit ⟨hlt, .inl rfl⟩
    · rw [Nat.toDigits_of_base_le (by decide) (by omega)]
      have h := Numeral.snoc (ih (n / 16) (by omega)) (c := Nat.digitChar (n % 16)) ⟨Nat.mod_lt _ (by decide), .inl rfl⟩
      rwa [Nat.div_add_mod] at h

theorem Numeral.upper (h : Numeral cs n) : Numeral (cs.map Char.toUpper) n := by
  have hdigit : ∀ {c : Char} {d : Nat}, IsHexDigit c d → IsHexDigit c.toUpper d := by
    intro c d h
    have hupper : ∀ d < 16, (Nat.digitChar d).toUpper.toUpper = (Nat.digitChar d).toUpper := by decide
    refine ⟨h.1, .inr ?_⟩
    rcases h.2 with rfl | rfl
    · rfl
    · exact hupper d h.1
  induction h with
  | digit h => exact .digit (hdigit h)
  | snoc _ hc ih =>
    rw [List.map_append]
    exact .snoc ih (hdigit hc)

end Digits

/-! ## Addresses -/

namespace CommandLine

open Digits (Written Numeral IsHexDigit)

variable {cs ds t : List Char} {v : Address} {n : Nat}

/-- A text with the mark of its base in front. -/
def Prefixed (t : List Char) : Prop := ['0', 'x'] <+: t ∨ ['0', 'X'] <+: t

/-- The ways to spell an address: after `0x` or `0X`, or, without either, in front of `h` or `H` or bare. -/
inductive Spells : List Char → Address → Prop where
  | marked {x : Char} {ds : List Char} {v : Address} (hx : x = 'x' ∨ x = 'X') (h : Written ds v) :
    Spells ('0' :: x :: ds) v
  | suffixed {x : Char} {ds : List Char} {v : Address} (hx : x = 'h' ∨ x = 'H') (hp : ¬ Prefixed (ds ++ [x]))
    (h : Written ds v) : Spells (ds ++ [x]) v
  | bare {ds : List Char} {v : Address} (hp : ¬ Prefixed ds) (h : Written ds v) : Spells ds v

/-! ### The mark of the base -/

theorem prefixed_iff : Prefixed t ↔ ∃ x ds, (x = 'x' ∨ x = 'X') ∧ t = '0' :: x :: ds := by
  constructor
  · rintro (⟨ds, rfl⟩ | ⟨ds, rfl⟩)
    · exact ⟨'x', ds, .inl rfl, rfl⟩
    · exact ⟨'X', ds, .inr rfl, rfl⟩
  · rintro ⟨x, ds, rfl | rfl, rfl⟩
    · exact .inl ⟨ds, rfl⟩
    · exact .inr ⟨ds, rfl⟩

theorem before?_eq_some_iff {x : Char} : before? x cs = some ds ↔ cs = ds ++ [x] := by
  unfold before?
  constructor
  · intro h
    obtain ⟨hlast, hfront⟩ := Option.ite_none_right_eq_some.1 h
    obtain ⟨front, rfl⟩ := List.getLast?_eq_some_iff.1 hlast
    simpa using hfront
  · rintro rfl
    simp

theorem before?_concat_of_ne {x y : Char} (h : x ≠ y) : before? y (ds ++ [x]) = none := by
  simp [before?, h]

theorem addressDigits_marked {x : Char} (hx : x = 'x' ∨ x = 'X') : addressDigits ('0' :: x :: ds) = ds := by
  rcases hx with rfl | rfl <;> simp [addressDigits, after?]

theorem addressDigits_of_not_prefixed (h : ¬ Prefixed t) :
    addressDigits t = ((before? 'h' t).or (before? 'H' t)).getD t := by
  have hnone : ∀ l : List Char, ¬ l <+: t → after? l t = none := by
    intro l hl
    rw [Option.eq_none_iff_forall_ne_some]
    intro ds hds
    exact hl ⟨ds, (after?_eq_some_iff.1 hds).symm⟩
  rw [addressDigits, hnone _ fun hl => h (.inl hl), hnone _ fun hl => h (.inr hl), Option.none_or, Option.none_or]

theorem addressDigits_suffixed {x : Char} (hx : x = 'h' ∨ x = 'H') (hp : ¬ Prefixed (ds ++ [x])) :
    addressDigits (ds ++ [x]) = ds := by
  rw [addressDigits_of_not_prefixed hp]
  rcases hx with rfl | rfl
  · rw [before?_eq_some_iff.2 rfl]
    rfl
  · rw [before?_concat_of_ne (by decide), before?_eq_some_iff.2 rfl]
    rfl

theorem addressDigits_bare (hp : ¬ Prefixed t) (hs : ∀ x ds, x = 'h' ∨ x = 'H' → t ≠ ds ++ [x]) :
    addressDigits t = t := by
  have hnone : ∀ x : Char, x = 'h' ∨ x = 'H' → before? x t = none := by
    intro x hx
    rw [Option.eq_none_iff_forall_ne_some]
    intro ds hds
    exact hs x ds hx (before?_eq_some_iff.1 hds)
  rw [addressDigits_of_not_prefixed hp, hnone _ (.inl rfl), hnone _ (.inr rfl)]
  rfl

/-- What is read as an address is a spelling of it. -/
theorem word?_addressDigits_iff : Digits.word? 16 (addressDigits t) = some v ↔ Spells t v := by
  rw [Digits.word?_eq_some_iff]
  constructor
  · intro h
    by_cases hp : Prefixed t
    · obtain ⟨x, ds, hx, rfl⟩ := prefixed_iff.1 hp
      rw [addressDigits_marked hx] at h
      exact .marked hx h
    by_cases hs : ∃ x ds, (x = 'h' ∨ x = 'H') ∧ t = ds ++ [x]
    · obtain ⟨x, ds, hx, rfl⟩ := hs
      rw [addressDigits_suffixed hx hp] at h
      exact .suffixed hx hp h
    · rw [addressDigits_bare hp fun x ds hx ht => hs ⟨x, ds, hx, ht⟩] at h
      exact .bare hp h
  · intro h
    cases h with
    | marked hx h => rwa [addressDigits_marked hx]
    | suffixed hx hp h => rwa [addressDigits_suffixed hx hp]
    | bare hp h =>
      rw [addressDigits_bare hp]
      · exact h
      · rintro x ds hx rfl
        exact h.notMem (x := x) (by rcases hx with rfl | rfl <;> simp) (by simp)

theorem parseAddress?_eq_some_iff {s : String} : parseAddress? s = some v ↔ Spells (Text.trimmed s.toList) v :=
  word?_addressDigits_iff

theorem address_eq_ok_iff {s : String} : address s = .ok v ↔ Spells (Text.trimmed s.toList) v := by
  rw [← parseAddress?_eq_some_iff, address]
  cases parseAddress? s <;> simp

theorem address_of_not_spells {s : String} (h : ∀ v, ¬ Spells (Text.trimmed s.toList) v) :
    address s = .error (.badAddress s) := by
  have hnone : parseAddress? s = none := by
    rw [Option.eq_none_iff_forall_ne_some]
    exact fun v hv => h v (parseAddress?_eq_some_iff.1 hv)
  rw [address, hnone]

/-! ### Spellings of a number -/

theorem not_prefixed_of_written (h : Written ds v) {r : List Char} (hr : ∀ x ∈ r, x = 'h' ∨ x = 'H') :
    ¬ Prefixed (ds ++ r) := by
  rw [prefixed_iff]
  rintro ⟨x, cs, hx, heq⟩
  have hmem : x ∈ ds ++ r := by simp [heq]
  rcases List.mem_append.1 hmem with hmem | hmem
  · exact h.notMem (x := x) (by rcases hx with rfl | rfl <;> simp) hmem
  · rcases hx with rfl | rfl <;> exact absurd (hr _ hmem) (by decide)

/-- Digits spell their value after every mark, in front of every mark, and bare. -/
theorem spells_of_written (h : Written ds v) :
    ∀ t ∈ ['0' :: 'x' :: ds, '0' :: 'X' :: ds, ds, ds ++ ['h'], ds ++ ['H']], Spells t v := by
  simp only [List.forall_mem_cons, List.not_mem_nil, false_implies, implies_true, and_true]
  have hbare : ¬ Prefixed ds := by simpa using not_prefixed_of_written h (r := []) (by simp)
  exact ⟨.marked (.inl rfl) h, .marked (.inr rfl) h, .bare hbare h,
    .suffixed (.inl rfl) (not_prefixed_of_written h (by simp)) h,
    .suffixed (.inr rfl) (not_prefixed_of_written h (by simp)) h⟩

theorem not_isBlank_of_written (h : Written ds v) :
    ∀ t ∈ ['0' :: 'x' :: ds, '0' :: 'X' :: ds, ds, ds ++ ['h'], ds ++ ['H']], ∀ c ∈ t, Text.isBlank c = false := by
  have hdigits : ∀ c ∈ ds, Text.isBlank c = false := by
    intro c hc
    obtain rfl | ⟨d, hd⟩ := h.mem c hc
    · rfl
    · exact hd.ne.2
  simp only [List.forall_mem_cons, List.forall_mem_append, List.not_mem_nil, false_implies, implies_true, and_true]
  exact ⟨⟨rfl, rfl, hdigits⟩, ⟨rfl, rfl, hdigits⟩, hdigits, ⟨hdigits, rfl⟩, ⟨hdigits, rfl⟩⟩

/-- Blanks around a spelling do not matter. -/
theorem address_surrounded {l r : List Char} (ht : Spells t v) (hblank : ∀ c ∈ t, Text.isBlank c = false)
    (hl : ∀ c ∈ l, Text.isBlank c = true) (hr : ∀ c ∈ r, Text.isBlank c = true) :
    address (String.ofList (l ++ t ++ r)) = .ok v := by
  have htrimmed : Text.trimmed (l ++ t ++ r) = t :=
    Text.trimmed_eq_iff.2 ⟨⟨l, r, rfl, hl, hr⟩, fun c hc => hblank c (List.mem_of_mem_head? hc),
      fun c hc => hblank c (List.mem_of_mem_getLast? hc)⟩
  rw [address_eq_ok_iff, String.toList_ofList, htrimmed]
  exact ht

/-- What is given as an address is one exactly if it is spelled like one, apart from blanks around it, and is otherwise
refused by its own text. Every number has the spellings with each mark and without, in digits of either case. -/
theorem address_exact :
    (∀ (s : String) (v : Address), address s = .ok v ↔ Spells (Text.trimmed s.toList) v) ∧
      (∀ s : String, (∀ v, ¬ Spells (Text.trimmed s.toList) v) → address s = .error (.badAddress s) ∧
        (Failure.badAddress s).note = customNote "InvalidInput" (s ++ " is not a valid address")) ∧
      (∀ (v : Address) (ds : List Char), Numeral ds v.toNat →
        ∀ t ∈ ['0' :: 'x' :: ds, '0' :: 'X' :: ds, ds, ds ++ ['h'], ds ++ ['H']], ∀ l r : List Char,
          (∀ c ∈ l, Text.isBlank c = true) → (∀ c ∈ r, Text.isBlank c = true) →
            address (String.ofList (l ++ t ++ r)) = .ok v) ∧
      ∀ v : Address,
        Numeral (Hex.digits v.toNat) v.toNat ∧ Numeral ((Hex.digits v.toNat).map Char.toUpper) v.toNat := by
  refine ⟨fun s v => address_eq_ok_iff, fun s h => ⟨address_of_not_spells h, rfl⟩, fun v ds h t ht l r hl hr => ?_,
    fun v => ⟨Digits.numeral_digits _, (Digits.numeral_digits _).upper⟩⟩
  have hwritten : Written ds v := .plain h
  exact address_surrounded (spells_of_written hwritten t ht) (not_isBlank_of_written hwritten t ht) hl hr

/-- Capital digits between blanks, and a text with both marks. -/
theorem address_both_marks :
    address "\t4A1000h\n" = .ok 0x4A1000 ∧ address "0x10h" = .error (.badAddress "0x10h") := by
  obtain ⟨hspells, hrefused, hsurrounded, hdigits⟩ := address_exact
  constructor
  · have hupper : (Hex.digits (0x4A1000 : Address).toNat).map Char.toUpper = ['4', 'A', '1', '0', '0', '0'] := by
      decide +kernel
    have hnumeral := (hdigits 0x4A1000).2
    rw [hupper] at hnumeral
    exact hsurrounded _ _ hnumeral ['4', 'A', '1', '0', '0', '0', 'h'] (by simp) ['\t'] ['\n']
      (by simp [Text.isBlank]) (by simp [Text.isBlank])
  · have hnone : parseAddress? "0x10h" = none := by decide +kernel
    refine (hrefused _ fun v hv => ?_).1
    have hsome := parseAddress?_eq_some_iff.2 hv
    rw [hnone] at hsome
    cases hsome

end CommandLine

end PathReplay
