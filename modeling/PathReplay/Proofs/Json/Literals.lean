import PathReplay.Json.Reader
import PathReplay.Json.Writer

/-!
# Literals that are read back

* `Digits.value?_toDigits` : the decimal digits of a number give its value;
* `NumberLiteral.EndsBefore` : what may follow a number without being taken for a part of it;
* `NumberLiteral.read?_toDigits`, `Json.number?_integer` : an integer is read back from its decimal text;
* `Json.units?_escaped`, `Json.string?_literal` : a string is read back from its literal, with every escape;
* `Json.name?_plain` : so is the name of a member that needs no escape.
-/

namespace PathReplay

/-! ## Decimal digits -/

namespace Digits

theorem digit?_of_isDigit {c : Char} (h : c.isDigit = true) : digit? 10 c = some (c.toNat - '0'.toNat) := by
  have hrange : 48 ≤ c.toNat ∧ c.toNat ≤ 57 := Char.isDigit_iff_toNat.1 h
  have hlt : c.toNat - '0'.toNat < 10 := show c.toNat - 48 < 10 by omega
  rw [digit?, if_pos h, if_pos hlt]

theorem valueFrom?_of_isDigit (n : Nat) {cs : List Char} (h : ∀ c ∈ cs, c.isDigit = true) :
    valueFrom? 10 n cs = some (Nat.ofDigitChars 10 cs n) := by
  induction cs generalizing n with
  | nil => rfl
  | cons c cs ih =>
    rw [valueFrom?, digit?_of_isDigit (h c List.mem_cons_self), Option.bind_some,
      ih _ fun d hd => h d (List.mem_cons_of_mem c hd), Nat.ofDigitChars_cons]

theorem isDigit_of_mem_toDigits {n : Nat} : ∀ c ∈ Nat.toDigits 10 n, c.isDigit = true := fun _ hc =>
  Nat.isDigit_of_mem_toDigits (by decide) (by decide) hc

/-- The decimal digits of a number give its value. -/
theorem value?_toDigits (n : Nat) : value? 10 (Nat.toDigits 10 n) = some n := by
  rw [value?, List.isEmpty_eq_false_iff.2 Nat.toDigits_ne_nil, if_neg Bool.false_ne_true,
    valueFrom?_of_isDigit 0 isDigit_of_mem_toDigits, Nat.ofDigitChars_ten_toDigits]

/-- Only zero is written with a zero in front. -/
theorem head?_toDigits_ne_zero (n : Nat) (h : n ≠ 0) : (Nat.toDigits 10 n).head? ≠ some '0' := by
  induction n using Nat.strongRecOn with
  | ind n ih =>
    by_cases hlt : n < 10
    · rw [Nat.toDigits_of_lt_base hlt, List.head?_cons, Ne, Option.some_inj, Nat.digitChar_eq_zero]
      exact h
    · have hhead := ih (n / 10) (by omega) (by omega)
      rw [Nat.toDigits_of_base_le (by decide) (by omega), List.head?_append]
      cases hdigits : Nat.toDigits 10 (n / 10) with
      | nil => exact absurd hdigits Nat.toDigits_ne_nil
      | cons c cs => rwa [hdigits] at hhead

end Digits

/-! ## Integers -/

namespace NumberLiteral

/-- What follows cannot be taken for a part of a number. -/
def EndsBefore (rest : List Char) : Prop := ∀ c ∈ rest.head?, c.isDigit = false ∧ c ∉ ['.', 'e', 'E']

theorem digits_append_of_endsBefore {ds rest : List Char} (hds : ∀ c ∈ ds, c.isDigit = true)
    (hrest : EndsBefore rest) : digits (ds ++ rest) = (ds, rest) := by
  have hnone : rest.takeWhile Char.isDigit = [] ∧ rest.dropWhile Char.isDigit = rest := by
    cases rest with
    | nil => exact ⟨rfl, rfl⟩
    | cons c rest =>
      have hc := (hrest c rfl).1
      rw [List.takeWhile_cons_of_neg (by simp [hc]), List.dropWhile_cons_of_neg (by simp [hc])]
      exact ⟨rfl, rfl⟩
  rw [digits, List.takeWhile_append_of_pos hds, List.dropWhile_append_of_pos hds, hnone.1, hnone.2, List.append_nil]

def ofDigits (negative : Bool) (ds : List Char) : NumberLiteral := ⟨negative, ds, [], [], false, true⟩

theorem minus_toDigits (negative : Bool) (n : Nat) (rest : List Char) :
    minus ((if negative then ['-'] else []) ++ (Nat.toDigits 10 n ++ rest)) =
      (negative, Nat.toDigits 10 n ++ rest) := by
  cases negative
  · cases hdigits : Nat.toDigits 10 n with
    | nil => exact absurd hdigits Nat.toDigits_ne_nil
    | cons c cs =>
      have hdigit := Digits.isDigit_of_mem_toDigits c (hdigits ▸ List.mem_cons_self)
      show minus (c :: (cs ++ rest)) = _
      unfold minus
      split
      · rename_i heq
        cases heq
        cases hdigit
      · rfl
  · rfl

theorem whole?_toDigits (n : Nat) {rest : List Char} (hrest : EndsBefore rest) :
    whole? (Nat.toDigits 10 n ++ rest) = some (Nat.toDigits 10 n, rest) := by
  rw [whole?, digits_append_of_endsBefore Digits.isDigit_of_mem_toDigits hrest]
  dsimp only
  split
  · rename_i hnil
    exact absurd hnil Nat.toDigits_ne_nil
  · rfl
  · rename_i ds hlong hzero
    by_cases hn : n = 0
    · rw [hn, Nat.toDigits_zero] at hzero
      exact absurd (List.cons.inj hzero).2.symm hlong
    · have hhead := Digits.head?_toDigits_ne_zero n hn
      rw [hzero] at hhead
      exact absurd rfl hhead
  · rfl

theorem fraction?_of_endsBefore {rest : List Char} (hrest : EndsBefore rest) : fraction? rest = some ([], rest) := by
  unfold fraction?
  split
  · exact absurd (by decide) (hrest '.' rfl).2
  · rfl

theorem exponent?_of_endsBefore {rest : List Char} (hrest : EndsBefore rest) :
    exponent? rest = some ((false, []), rest) := by
  unfold exponent?
  split
  · exact absurd (by decide) (hrest 'e' rfl).2
  · exact absurd (by decide) (hrest 'E' rfl).2
  · rfl

/-- Decimal digits, with or without a minus sign, are read up to their end. -/
theorem read?_toDigits (negative : Bool) (n : Nat) {rest : List Char} (hrest : EndsBefore rest) :
    read? ((if negative then ['-'] else []) ++ (Nat.toDigits 10 n ++ rest)) =
      some (ofDigits negative (Nat.toDigits 10 n), rest) := by
  rw [read?, minus_toDigits]
  simp only [whole?_toDigits n hrest, fraction?_of_endsBefore hrest, exponent?_of_endsBefore hrest,
    Option.bind_eq_bind, Option.bind_some, Option.pure_def]
  rfl

theorem integer?_ofDigits (negative : Bool) (n : Nat) :
    (ofDigits negative (Nat.toDigits 10 n)).integer? =
      if negative then if n = 0 then none else some (-(n : Int)) else some (n : Int) := by
  unfold integer?
  rw [show (ofDigits negative (Nat.toDigits 10 n)).whole = Nat.toDigits 10 n from rfl, Digits.value?_toDigits]
  rfl

/-- The text of an integer. -/
theorem toList_toString (i : Int) :
    (toString i).toList = (if decide (i < 0) then ['-'] else []) ++ Nat.toDigits 10 i.natAbs := by
  rw [Int.toString_eq_repr, Int.repr_eq_if]
  by_cases h : 0 ≤ i
  · rw [if_pos h, if_neg (by simpa using h), Nat.toList_repr, show i.toNat = i.natAbs by omega, List.nil_append]
  · rw [if_neg h, if_pos (by simpa using h), String.toList_append, Nat.toList_repr,
      show (-i).toNat = i.natAbs by omega]
    rfl

theorem integer?_of_toString (i : Int) :
    (ofDigits (decide (i < 0)) (Nat.toDigits 10 i.natAbs)).integer? = some i := by
  rw [integer?_ofDigits]
  by_cases h : i < 0
  · rw [if_pos (decide_eq_true h), if_neg (by omega)]
    exact congrArg some (by omega)
  · rw [if_neg (by simpa using h)]
    exact congrArg some (by omega)

end NumberLiteral

namespace Json

theorem number?_of_read? {s r : List Char} {n : NumberLiteral} (h : NumberLiteral.read? s = some (n, r)) :
    ∃ hr, number? s = some (ofLiteral n, ⟨r, hr⟩) := by
  refine ⟨NumberLiteral.length_read?_lt h, ?_⟩
  unfold number?
  split
  · rename_i heq
    obtain ⟨rfl, rfl⟩ := Prod.mk.inj (Option.some.inj (heq.symm.trans h))
    rfl
  · rename_i heq
    cases heq.symm.trans h

/-- An integer that fits 64 bits is read back. -/
theorem number?_integer {i : Int} (hlo : -0x8000000000000000 ≤ i) (hhi : i < 0x10000000000000000) {rest : List Char}
    (hrest : NumberLiteral.EndsBefore rest) :
    ∃ h, number? ((toString i).toList ++ rest) = some (integer i, ⟨rest, h⟩) := by
  have hread := NumberLiteral.read?_toDigits (decide (i < 0)) i.natAbs hrest
  rw [← List.append_assoc, ← NumberLiteral.toList_toString] at hread
  obtain ⟨h, hnumber⟩ := number?_of_read? hread
  refine ⟨h, hnumber.trans ?_⟩
  rw [ofLiteral, NumberLiteral.integer?_of_toString]
  exact congrArg some (congrArg (·, _) (if_pos ⟨hlo, hhi⟩))

/-! ## Strings -/

/-- The four digits of a control character are read back. -/
theorem hex4?_control : ∀ n < 0x20,
    Hex.padded 4 (Hex.digits n) = ['0', '0', (n / 16).digitChar, (n % 16).digitChar] ∧
      hex4? '0' '0' (n / 16).digitChar (n % 16).digitChar = some n := by
  decide +kernel

theorem mem_letterEscapes {c letter : Char} (h : letterEscapes.lookup c = some letter) :
    (c, letter) ∈ letterEscapes := by
  obtain ⟨front, back, hlist, -⟩ := List.lookup_eq_some_iff.1 h
  simp [hlist]

/-- No letter stands for four digits, and each is read as the character it is written for. -/
theorem escapes_letterEscapes : ∀ e ∈ letterEscapes, e.2 ≠ 'u' ∧ escapes.lookup e.2 = some e.1 := by decide +kernel

/-- A character is read back from what it is written as. -/
theorem units?_escaped (c : Char) {s rest : List Char} {us : List Unit16} (h : units? s = some (us, rest)) :
    units? (escaped c ++ s) = some (.char c :: us, rest) := by
  unfold escaped
  split
  · rename_i letter hletter
    obtain ⟨hne, hescape⟩ := escapes_letterEscapes _ (mem_letterEscapes hletter)
    simp [units?, h, hne, hescape]
  rename_i hnone
  split
  · rename_i hlt
    obtain ⟨hdigits, hvalue⟩ := hex4?_control c.toNat hlt
    have hunit : Unit16.ofNat c.toNat = .char c := by
      rw [Unit16.ofNat, if_neg (by omega), if_neg (by omega), Char.ofNat_toNat]
    rw [hdigits]
    simp [units?, hvalue, h, hunit]
  · rename_i hge
    obtain ⟨hquote, hslash⟩ : c ≠ '"' ∧ c ≠ '\\' := by constructor <;> rintro rfl <;> cases hnone
    simp [units?, hslash, hge, h]

theorem units?_flatMap_escaped (cs rest : List Char) :
    units? (cs.flatMap escaped ++ '"' :: rest) = some (cs.map .char, rest) := by
  induction cs with
  | nil => rfl
  | cons c cs ih =>
    rw [List.flatMap_cons, List.append_assoc]
    exact units?_escaped c ih

theorem textOf?_map_char (cs : List Char) : textOf? (cs.map .char) = some cs := by
  induction cs with
  | nil => rfl
  | cons c cs ih => rw [List.map_cons, textOf?, ih, Option.map_some]

theorem string?_of_units? {s r : List Char} {us : List Unit16} (h : units? s = some (us, r)) :
    ∃ hr, string? s = some ((textOf? us).map String.ofList, ⟨r, hr⟩) := by
  refine ⟨length_units?_le h, ?_⟩
  unfold string?
  split
  · rename_i heq
    obtain ⟨rfl, rfl⟩ := Prod.mk.inj (Option.some.inj (heq.symm.trans h))
    rfl
  · rename_i heq
    cases heq.symm.trans h

/-- A string is read back from its literal. -/
theorem string?_literal (t : String) (rest : List Char) :
    ∃ h, string? (t.toList.flatMap escaped ++ '"' :: rest) = some (some t, ⟨rest, h⟩) := by
  obtain ⟨h, hstring⟩ := string?_of_units? (units?_flatMap_escaped t.toList rest)
  refine ⟨h, hstring.trans ?_⟩
  rw [textOf?_map_char, Option.map_some, String.ofList_toList]

/-- No character of the text is written with an escape. -/
def NeedsNoEscape (t : String) : Prop := t.toList.all (fun c => c != '"' && c != '\\' && decide (0x20 ≤ c.toNat)) = true

instance (t : String) : Decidable (NeedsNoEscape t) := inferInstanceAs (Decidable (_ = true))

theorem needsNoEscape_iff {t : String} : NeedsNoEscape t ↔ ∀ c ∈ t.toList, c ≠ '"' ∧ c ≠ '\\' ∧ 0x20 ≤ c.toNat := by
  simp [NeedsNoEscape, and_assoc]

/-- Of the characters from the blank on only the quote and the backslash are escaped. -/
theorem escaped_eq_self {c : Char} (hquote : c ≠ '"') (hslash : c ≠ '\\') (hge : 0x20 ≤ c.toNat) : escaped c = [c] := by
  have hlisted : ∀ e ∈ letterEscapes, e.1 = '"' ∨ e.1 = '\\' ∨ e.1.toNat < 0x20 := by decide
  have hnone : letterEscapes.lookup c = none := by
    refine Option.eq_none_iff_forall_ne_some.2 fun letter hletter => ?_
    obtain hc | hc | hc := hlisted _ (mem_letterEscapes hletter)
    · exact hquote hc
    · exact hslash hc
    · exact absurd hc (Nat.not_lt.2 hge)
  rw [escaped, hnone]
  exact if_neg (Nat.not_lt.2 hge)

theorem flatMap_escaped {t : String} (h : NeedsNoEscape t) : t.toList.flatMap escaped = t.toList := by
  have hsame : ∀ c ∈ t.toList, escaped c = [c] := by
    intro c hc
    obtain ⟨hquote, hslash, hge⟩ := needsNoEscape_iff.1 h c hc
    exact escaped_eq_self hquote hslash hge
  rw [List.flatMap_def, List.map_congr_left hsame, ← List.flatMap_def, List.flatMap_singleton']

/-- The name of a member is read back as a plain one if no character of it is escaped. -/
theorem name?_plain {t : String} (h : NeedsNoEscape t) (rest : List Char) :
    ∃ hr, name? (t.toList.flatMap escaped ++ '"' :: rest) = some (.plain t, ⟨rest, hr⟩) := by
  obtain ⟨hr, hstring⟩ := string?_literal t rest
  refine ⟨hr, ?_⟩
  have hquote : ∀ c ∈ t.toList, (c != '"') = true := fun c hc => bne_iff_ne.2 (needsNoEscape_iff.1 h c hc).1
  have hslash : t.toList.contains '\\' = false := by
    rw [← Bool.not_eq_true, List.contains_iff_mem]
    exact fun hmem => (needsNoEscape_iff.1 h _ hmem).2.1 rfl
  have hplain : isPlainLiteral (t.toList.flatMap escaped ++ '"' :: rest) = true := by
    rw [flatMap_escaped h, isPlainLiteral, List.takeWhile_append_of_pos hquote, List.takeWhile_cons_of_neg (by decide),
      List.append_nil, hslash]
    rfl
  rw [name?, hstring, hplain]
  rfl

end Json
end PathReplay
