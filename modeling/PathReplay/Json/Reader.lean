import PathReplay.Json.Value

/-!
# Reading JSON

`Json.parse?` reads a whole document: one value with blanks around it. Each step of the reader returns what
follows with a proof that it is shorter, so that reading ends. Like `Json.render` it stands in for a JSON library.
-/

namespace PathReplay.Json

/-- What follows after something was taken off the front of a text. -/
abbrev Rest (s : List Char) := { r : List Char // r.length < s.length }

/-- A shorter rest is also a rest of the longer text. -/
def Rest.of {s t : List Char} (h : t.length ≤ s.length) (r : Rest t) : Rest s :=
  ⟨r.1, Nat.lt_of_lt_of_le r.2 h⟩

/-- Space, tab, line feed and carriage return. -/
def isSpace (c : Char) : Bool := c == ' ' || c == '\t' || c == '\n' || c == '\r'

/-- The text from its first character that is not a space. -/
def skipSpaces (s : List Char) : List Char := s.dropWhile isSpace

theorem length_skipSpaces_le (s : List Char) : (skipSpaces s).length ≤ s.length :=
  (List.dropWhile_suffix isSpace).length_le

/-! ## Strings -/

def hex4? (a b c d : Char) : Option Nat := do
  let a ← Digits.digit? 16 a
  let b ← Digits.digit? 16 b
  let c ← Digits.digit? 16 c
  let d ← Digits.digit? 16 d
  return ((a * 16 + b) * 16 + c) * 16 + d

def escapes : List (Char × Char) :=
  [('"', '"'), ('\\', '\\'), ('/', '/'), ('b', '\x08'), ('f', '\x0c'), ('n', '\n'), ('r', '\r'),
   ('t', '\t')]

/-- One unit of a string literal: a character, or half of a surrogate pair. -/
inductive Unit16 where
  | char (c : Char)
  | lead (n : Nat)
  | trail (n : Nat)

def Unit16.ofNat (n : Nat) : Unit16 :=
  if 0xD800 ≤ n ∧ n < 0xDC00 then lead (n - 0xD800)
  else if 0xDC00 ≤ n ∧ n < 0xE000 then trail (n - 0xDC00)
  else char (Char.ofNat n)

/-- The units of a string literal after its opening quote, up to and without the closing one. -/
def units? : List Char → Option (List Unit16 × List Char)
  | [] => none
  | '"' :: rest => some ([], rest)
  | '\\' :: 'u' :: a :: b :: c :: d :: rest => do
    let n ← hex4? a b c d
    let (us, rest) ← units? rest
    return (Unit16.ofNat n :: us, rest)
  | '\\' :: c :: rest => do
    let c ← escapes.lookup c
    let (us, rest) ← units? rest
    return (.char c :: us, rest)
  | c :: rest =>
    if c.toNat < 0x20 ∨ c = '\\' then none
    else do
      let (us, rest) ← units? rest
      return (.char c :: us, rest)

/-- The text of a literal's units; a surrogate without its other half has none. -/
def textOf? : List Unit16 → Option (List Char)
  | [] => some []
  | .char c :: rest => (textOf? rest).map (c :: ·)
  | .lead n :: .trail k :: rest =>
    (textOf? rest).map (Char.ofNat (0x10000 + n * 0x400 + k) :: ·)
  | _ => none

theorem length_units?_le {s : List Char} {us : List Unit16} {r : List Char}
    (h : units? s = some (us, r)) : r.length < s.length := by
  fun_induction units? s generalizing us r with
  | case1 => simp at h
  | case2 rest => simp at h; simp [h.2]
  | case3 a b c d rest ih =>
    simp only [Option.bind_eq_bind, Option.bind_eq_some_iff, Prod.exists, Option.pure_def,
      Option.some.injEq, Prod.mk.injEq] at h
    obtain ⟨n, -, us', r', hr, -, rfl⟩ := h
    have := ih hr
    simp only [List.length_cons]; omega
  | case4 c rest _ ih =>
    simp only [Option.bind_eq_bind, Option.bind_eq_some_iff, Prod.exists, Option.pure_def,
      Option.some.injEq, Prod.mk.injEq] at h
    obtain ⟨n, -, us', r', hr, -, rfl⟩ := h
    have := ih hr
    simp only [List.length_cons]; omega
  | case5 => simp at h
  | case6 c rest _ _ _ _ ih =>
    simp only [Option.bind_eq_bind, Option.bind_eq_some_iff, Prod.exists, Option.pure_def,
      Option.some.injEq, Prod.mk.injEq] at h
    obtain ⟨us', r', hr, -, rfl⟩ := h
    have := ih hr
    simp only [List.length_cons]; omega

def string? (s : List Char) : Option (Option String × Rest s) :=
  match h : units? s with
  | some (us, r) => some ((textOf? us).map String.ofList, ⟨r, length_units?_le h⟩)
  | none => none

def isPlainLiteral (s : List Char) : Bool := !(s.takeWhile (· != '"')).contains '\\'

def name? (s : List Char) : Option (MemberName × Rest s) :=
  (string? s).map fun (t, r) => (⟨t, isPlainLiteral s⟩, r)

/-! ## Numbers and words -/

def number? (s : List Char) : Option (Json × Rest s) :=
  match h : NumberLiteral.read? s with
  | some (n, r) => some (ofLiteral n, ⟨r, NumberLiteral.length_read?_lt h⟩)
  | none => none

def word? (s : List Char) : Option (Json × Rest s) :=
  match s with
  | 't' :: 'r' :: 'u' :: 'e' :: r => some (bool true, ⟨r, by simp; omega⟩)
  | 'f' :: 'a' :: 'l' :: 's' :: 'e' :: r => some (bool false, ⟨r, by simp; omega⟩)
  | 'n' :: 'u' :: 'l' :: 'l' :: r => some (null, ⟨r, by simp; omega⟩)
  | _ => none

/-! ## Arrays, objects and documents -/

mutual

/-- A value at the front of a text, after blanks. -/
def value? (s : List Char) : Option (Json × Rest s) :=
  match h : skipSpaces s with
  | [] => none
  | '"' :: t =>
    have ht : t.length < s.length := by
      have := length_skipSpaces_le s; rw [h] at this; simp at this; omega
    (string? t).map fun (x, r) => (string x, r.of (Nat.le_of_lt ht))
  | '[' :: t =>
    have ht : t.length < s.length := by
      have := length_skipSpaces_le s; rw [h] at this; simp at this; omega
    match h' : skipSpaces t with
    | ']' :: r => some (array [], ⟨r, by
        have := length_skipSpaces_le t; rw [h'] at this; simp at this; omega⟩)
    | _ => (items? t).map fun (xs, r) => (array xs, r.of (Nat.le_of_lt ht))
  | '\x7b' :: t =>
    have ht : t.length < s.length := by
      have := length_skipSpaces_le s; rw [h] at this; simp at this; omega
    match h' : skipSpaces t with
    | '\x7d' :: r => some (object [], ⟨r, by
        have := length_skipSpaces_le t; rw [h'] at this; simp at this; omega⟩)
    | _ => (members? t).map fun (xs, r) => (object xs, r.of (Nat.le_of_lt ht))
  | c :: t =>
    have ht : (c :: t).length ≤ s.length := h ▸ length_skipSpaces_le s
    ((word? (c :: t)).orElse fun _ => number? (c :: t)).map fun (x, r) => (x, r.of ht)
termination_by (s.length, 0)

/-- The items of an array that is not empty, up to and with its closing bracket. -/
def items? (s : List Char) : Option (List Json × Rest s) := do
  let (x, r) ← value? s
  match h : skipSpaces r.1 with
  | ']' :: t =>
    return ([x], ⟨t, by
      have := length_skipSpaces_le r.1; rw [h] at this; simp at this; have := r.2; omega⟩)
  | ',' :: t =>
    have ht : t.length < s.length := by
      have := length_skipSpaces_le r.1; rw [h] at this; simp at this; have := r.2; omega
    let (xs, u) ← items? t
    return (x :: xs, u.of (Nat.le_of_lt ht))
  | _ => none
termination_by (s.length, 1)

/-- The members of an object that is not empty, up to and with its closing brace. -/
def members? (s : List Char) : Option (List (MemberName × Json) × Rest s) := do
  match h : skipSpaces s with
  | '"' :: t =>
    have ht : t.length < s.length := by
      have := length_skipSpaces_le s; rw [h] at this; simp at this; omega
    let (name, r) ← name? t
    match h' : skipSpaces r.1 with
    | ':' :: t' =>
      have ht' : t'.length < s.length := by
        have := length_skipSpaces_le r.1; rw [h'] at this; simp at this; have := r.2; omega
      let (x, r') ← value? t'
      match h'' : skipSpaces r'.1 with
      | '\x7d' :: u =>
        return ([(name, x)], ⟨u, by
          have := length_skipSpaces_le r'.1; rw [h''] at this; simp at this; have := r'.2; omega⟩)
      | ',' :: u =>
        have hu : u.length < s.length := by
          have := length_skipSpaces_le r'.1; rw [h''] at this; simp at this; have := r'.2; omega
        let (xs, v) ← members? u
        return ((name, x) :: xs, v.of (Nat.le_of_lt hu))
      | _ => none
    | _ => none
  | _ => none
termination_by (s.length, 1)

end

/-- A whole document. -/
def parse? (text : String) : Option Json :=
  (value? text.toList).bind fun (x, r) => if (skipSpaces r.1).isEmpty then some x else none

end PathReplay.Json
