import PathReplay.Proofs.Json.Literals

/-!
# Documents that are read back

* `Json.Leaves` : a step of the reader takes a value off the front of a text and leaves a rest;
* `Json.value?_array`, `Json.items?_cons`, `Json.members?_cons` and others : the reader's rules;
* `Json.Writable` : documents whose text says everything about them, by how deep they are nested;
* `Json.Writable.isReadBack`, `Json.parse?_render` : such a document is read back from its text, alone or within
  another;
* `Json.Faithful` : what is asked of any printer and reader of documents; `Json.faithful_render` : these two are.
-/

namespace PathReplay.Json

open NumberLiteral

variable {α β : Type} {s t u v w r rest : List Char}

/-- A step of the reader takes a value off the front of a text and leaves a rest. -/
def Leaves (o : Option (α × Rest s)) (x : α) (r : List Char) : Prop := ∃ h, o = some (x, ⟨r, h⟩)

theorem Leaves.map {o : Option (α × Rest s)} {x : α} (h : Leaves o x r) (f : α → β) (hle : s.length ≤ t.length) :
    Leaves (o.map fun (x, r) => (f x, r.of hle)) (f x) r := by
  obtain ⟨_, rfl⟩ := h
  exact ⟨_, rfl⟩

/-! ## The rules of the reader -/

theorem value?_string {x : Option String} (hs : skipSpaces s = '"' :: t) (h : Leaves (string? t) x r) :
    Leaves (value? s) (string x) r := by
  rw [value?]
  split <;> rename_i hs' <;> cases hs.symm.trans hs' <;> try contradiction
  exact h.map string _

/-- An array: its closing bracket at once, or its items. -/
theorem value?_array {xs : List Json} (hs : skipSpaces s = '[' :: t)
    (hxs : skipSpaces t = ']' :: r ∧ xs = [] ∨ (∀ u, skipSpaces t ≠ ']' :: u) ∧ Leaves (items? t) xs r) :
    Leaves (value? s) (array xs) r := by
  rw [value?]
  split <;> rename_i hs' <;> cases hs.symm.trans hs' <;> try contradiction
  dsimp only
  obtain ⟨ht, rfl⟩ | ⟨hne, h⟩ := hxs
  · split
    · rename_i ht'
      cases ht.symm.trans ht'
      exact ⟨_, rfl⟩
    · rename_i hne
      exact absurd ht (hne _)
  · split
    · rename_i ht
      exact absurd ht (hne _)
    · exact h.map array _

/-- An object: its closing brace at once, or its members. -/
theorem value?_object {ms : List (MemberName × Json)} (hs : skipSpaces s = '\x7b' :: t)
    (hms : skipSpaces t = '\x7d' :: r ∧ ms = [] ∨ (∀ u, skipSpaces t ≠ '\x7d' :: u) ∧ Leaves (members? t) ms r) :
    Leaves (value? s) (object ms) r := by
  rw [value?]
  split <;> rename_i hs' <;> cases hs.symm.trans hs' <;> try contradiction
  dsimp only
  obtain ⟨ht, rfl⟩ | ⟨hne, h⟩ := hms
  · split
    · rename_i ht'
      cases ht.symm.trans ht'
      exact ⟨_, rfl⟩
    · rename_i hne
      exact absurd ht (hne _)
  · split
    · rename_i ht
      exact absurd ht (hne _)
    · exact h.map object _

/-- A word or a number. -/
theorem value?_scalar {c : Char} {x : Json} (hs : skipSpaces s = c :: t) (hc : c ∉ ['"', '[', '\x7b'])
    (h : Leaves ((word? (c :: t)).orElse fun _ => number? (c :: t)) x r) : Leaves (value? s) x r := by
  rw [value?]
  split <;> rename_i hs' <;> cases hs.symm.trans hs'
  · exact absurd (by decide) hc
  · exact absurd (by decide) hc
  · exact absurd (by decide) hc
  · exact h.map id _

/-- An item, and the closing bracket or a comma and more items. -/
theorem items?_cons {x : Json} {xs : List Json} (h : Leaves (value? s) x t)
    (hxs : skipSpaces t = ']' :: r ∧ xs = [] ∨ ∃ u, skipSpaces t = ',' :: u ∧ Leaves (items? u) xs r) :
    Leaves (items? s) (x :: xs) r := by
  obtain ⟨_, hvalue⟩ := h
  rw [items?, hvalue]
  simp only [Option.bind_eq_bind, Option.bind_some]
  obtain ⟨ht, rfl⟩ | ⟨u, ht, _, hitems⟩ := hxs
  · split <;> rename_i ht' <;> try cases ht.symm.trans ht'
    · exact ⟨_, rfl⟩
    · rename_i hne
      exact absurd ht (hne _)
  · split <;> rename_i ht' <;> try cases ht.symm.trans ht'
    · rw [hitems]
      exact ⟨_, rfl⟩
    · exact absurd ht (ht' _)

/-- A member, and the closing brace or a comma and more members. -/
theorem members?_cons {name : MemberName} {x : Json} {ms : List (MemberName × Json)} (hs : skipSpaces s = '"' :: t)
    (hname : Leaves (name? t) name u) (hu : skipSpaces u = ':' :: v) (h : Leaves (value? v) x w)
    (hms : skipSpaces w = '\x7d' :: r ∧ ms = [] ∨ ∃ y, skipSpaces w = ',' :: y ∧ Leaves (members? y) ms r) :
    Leaves (members? s) ((name, x) :: ms) r := by
  obtain ⟨_, hname⟩ := hname
  obtain ⟨_, hvalue⟩ := h
  rw [members?]
  split <;> rename_i hs' <;> try cases hs.symm.trans hs'
  · simp only [hname, Option.bind_eq_bind, Option.bind_some]
    split <;> rename_i hu' <;> try cases hu.symm.trans hu'
    · simp only [hvalue, Option.bind_some]
      obtain ⟨hw, rfl⟩ | ⟨y, hw, _, hmembers⟩ := hms
      · split <;> rename_i hw' <;> try cases hw.symm.trans hw'
        · exact ⟨_, rfl⟩
        · rename_i hne
          exact absurd hw (hne _)
      · split <;> rename_i hw' <;> try cases hw.symm.trans hw'
        · rw [hmembers]
          exact ⟨_, rfl⟩
        · exact absurd hw (hw' _)
    · exact absurd hu (hu' _)
  · exact absurd hs (hs' _)

/-! ## What is read back -/

/-- Documents whose text says everything about them, nested so deep at most: their numbers are integers of 64 bits,
their strings have a text, and the names of their members need no escape. -/
inductive Writable : Nat → Json → Prop where
  | null {n : Nat} : Writable n .null
  | bool {n : Nat} (b : Bool) : Writable n (.bool b)
  | integer {n : Nat} {i : Int} (hlo : -0x8000000000000000 ≤ i) (hhi : i < 0x10000000000000000) :
      Writable n (.integer i)
  | text {n : Nat} (t : String) : Writable n (.text t)
  | array {n : Nat} {xs : List Json} (hxs : ∀ x ∈ xs, Writable n x) : Writable (n + 1) (.array xs)
  | object {n : Nat} {ms : List (MemberName × Json)} (hnames : ∀ m ∈ ms, ∃ t, m.1 = .plain t ∧ NeedsNoEscape t)
      (hvalues : ∀ m ∈ ms, Writable n m.2) : Writable (n + 1) (.object ms)

theorem itemsDepth_le {n : Nat} {xs : List Json} (h : ∀ x ∈ xs, x.depth ≤ n) : itemsDepth xs ≤ n := by
  induction xs with
  | nil => exact Nat.zero_le n
  | cons x xs ih =>
    rw [List.forall_mem_cons] at h
    exact Nat.max_le.2 ⟨h.1, ih h.2⟩

theorem membersDepth_le {n : Nat} {ms : List (MemberName × Json)} (h : ∀ m ∈ ms, m.2.depth ≤ n) :
    membersDepth ms ≤ n := by
  induction ms with
  | nil => exact Nat.zero_le n
  | cons m ms ih =>
    rw [List.forall_mem_cons] at h
    exact Nat.max_le.2 ⟨h.1, ih h.2⟩

theorem Writable.depth_le {n : Nat} {j : Json} (h : Writable n j) : j.depth ≤ n := by
  induction h with
  | null => exact Nat.zero_le _
  | bool b => exact Nat.zero_le _
  | integer hlo hhi => exact Nat.zero_le _
  | text t => exact Nat.zero_le _
  | array hxs ih => exact Nat.succ_le_succ (itemsDepth_le ih)
  | object hnames hvalues ih => exact Nat.succ_le_succ (membersDepth_le ih)

theorem itemsRepresentable_of_forall {xs : List Json} (h : ∀ x ∈ xs, x.isRepresentable = true) :
    itemsRepresentable xs = true := by
  induction xs with
  | nil => rfl
  | cons x xs ih =>
    rw [List.forall_mem_cons] at h
    rw [itemsRepresentable, h.1, ih h.2]
    rfl

theorem membersRepresentable_of_forall {ms : List (MemberName × Json)} (hnames : ∀ m ∈ ms, m.1.text.isSome = true)
    (hvalues : ∀ m ∈ ms, m.2.isRepresentable = true) : membersRepresentable ms = true := by
  induction ms with
  | nil => rfl
  | cons m ms ih =>
    rw [List.forall_mem_cons] at hnames hvalues
    rw [membersRepresentable, hnames.1, hvalues.1, ih hnames.2 hvalues.2]
    rfl

theorem Writable.isRepresentable {n : Nat} {j : Json} (h : Writable n j) : j.isRepresentable = true := by
  induction h with
  | null => rfl
  | bool b => rfl
  | integer hlo hhi => rfl
  | text t => rfl
  | array hxs ih => exact itemsRepresentable_of_forall ih
  | object hnames hvalues ih =>
    refine membersRepresentable_of_forall (fun m hm => ?_) ih
    obtain ⟨t, hname, -⟩ := hnames m hm
    rw [hname]
    rfl

theorem skipSpaces_cons {c : Char} (h : isSpace c = false) (s : List Char) : skipSpaces (c :: s) = c :: s :=
  List.dropWhile_cons_of_neg (by simp [h])

/-- A character with which a value can start. -/
def Opens (c : Char) : Prop := isSpace c = false ∧ c ∉ [']', '\x7d']

instance (c : Char) : Decidable (Opens c) := inferInstanceAs (Decidable (_ ∧ _))

/-- The text of an integer starts like no other value. -/
theorem toString_eq_cons (i : Int) :
    ∃ c t, (toString i).toList = c :: t ∧ Opens c ∧ c ∉ ['"', '[', '\x7b'] ∧ c ∉ ['t', 'f', 'n'] := by
  rw [toList_toString]
  by_cases h : i < 0
  · rw [if_pos (decide_eq_true h)]
    exact ⟨'-', _, rfl, by decide⟩
  · rw [if_neg (by simpa using h), List.nil_append]
    cases hdigits : Nat.toDigits 10 i.natAbs with
    | nil => exact absurd hdigits Nat.toDigits_ne_nil
    | cons c t =>
      have hdigit : c.isDigit = true := Digits.isDigit_of_mem_toDigits c (hdigits ▸ List.mem_cons_self)
      have hne : ∀ d : Char, d.isDigit = false → c ≠ d := fun d hd h => by rw [h, hd] at hdigit; cases hdigit
      refine ⟨c, t, rfl, ⟨?_, ?_⟩, ?_, ?_⟩
      · simp [isSpace, hne ' ', hne '\t', hne '\n', hne '\r']
      · simp [hne ']', hne '\x7d']
      · simp [hne '"', hne '[', hne '\x7b']
      · simp [hne 't', hne 'f', hne 'n']

/-- A value's text starts with a character that opens a value. -/
theorem Writable.renderOnto_eq_cons {n : Nat} {j : Json} (h : Writable n j) (rest : List Char) :
    ∃ c t, renderOnto rest j = c :: t ∧ Opens c := by
  cases h with
  | null => exact ⟨'n', _, rfl, by decide⟩
  | bool b => cases b <;> exact ⟨_, _, rfl, by decide⟩
  | @integer _ i _ _ =>
    obtain ⟨c, t, hi, hc, -⟩ := toString_eq_cons i
    exact ⟨c, t ++ rest, by rw [renderOnto, hi, List.cons_append], hc⟩
  | text t => exact ⟨'"', _, rfl, by decide⟩
  | array => exact ⟨'[', _, rfl, by decide⟩
  | object => exact ⟨'\x7b', _, rfl, by decide⟩

theorem word?_eq_none {s : List Char} (h : ∀ c ∈ s.head?, c ∉ ['t', 'f', 'n']) : word? s = none := by
  unfold word?
  split
  · exact absurd (by decide) (h 't' rfl)
  · exact absurd (by decide) (h 'f' rfl)
  · exact absurd (by decide) (h 'n' rfl)
  · rfl

theorem renderItems_cons (rest : List Char) (x : Json) (xs : List Json) :
    ∃ after, renderItems rest (x :: xs) = renderOnto after x := by
  cases xs <;> exact ⟨_, rfl⟩

theorem renderMembers_cons (rest : List Char) (m : MemberName × Json) (ms : List (MemberName × Json)) :
    ∃ after, renderMembers rest (m :: ms) = '"' :: after := by
  obtain ⟨⟨text, isPlain⟩, x⟩ := m
  cases ms <;> cases text <;> exact ⟨_, rfl⟩

/-- A value is read off the front of its text, whatever may follow a value. -/
def IsReadBack (j : Json) : Prop := ∀ rest, EndsBefore rest → Leaves (value? (renderOnto rest j)) j rest

theorem endsBefore_cons {c : Char} (h : c.isDigit = false ∧ c ∉ ['.', 'e', 'E']) (t : List Char) :
    EndsBefore (c :: t) := fun d hd => by
  obtain rfl : c = d := Option.some.inj hd
  exact h

theorem isReadBack_integer {i : Int} (hlo : -0x8000000000000000 ≤ i) (hhi : i < 0x10000000000000000) :
    IsReadBack (integer i) := by
  intro rest hrest
  obtain ⟨c, t, hi, hopens, hscalar, hword⟩ := toString_eq_cons i
  have hnumber := number?_integer hlo hhi hrest
  rw [renderOnto]
  rw [hi, List.cons_append] at hnumber ⊢
  refine value?_scalar (skipSpaces_cons hopens.1 _) hscalar ?_
  have hnone : word? (c :: (t ++ rest)) = none := word?_eq_none fun d hd => Option.some.inj hd ▸ hword
  rw [hnone]
  exact hnumber

/-- The items of an array are read back if each is. -/
theorem leaves_renderItems {x : Json} {xs : List Json} (hxs : ∀ y ∈ x :: xs, IsReadBack y) (rest : List Char) :
    Leaves (items? (renderItems (']' :: rest) (x :: xs))) (x :: xs) rest := by
  induction xs generalizing x with
  | nil =>
    rw [renderItems]
    exact items?_cons (hxs x List.mem_cons_self _ (endsBefore_cons (by decide) _))
      (.inl ⟨skipSpaces_cons (by decide) _, rfl⟩)
  | cons y more ih =>
    rw [renderItems]
    exact items?_cons (hxs x List.mem_cons_self _ (endsBefore_cons (by decide) _))
      (.inr ⟨_, skipSpaces_cons (by decide) _, ih fun z hz => hxs z (List.mem_cons_of_mem x hz)⟩)

theorem leaves_member {t : String} {x : Json} {ms : List (MemberName × Json)} {after : List Char}
    (ht : NeedsNoEscape t) (hx : IsReadBack x) (hafter : EndsBefore after)
    (hms : skipSpaces after = '\x7d' :: rest ∧ ms = [] ∨
      ∃ y, skipSpaces after = ',' :: y ∧ Leaves (members? y) ms rest) :
    Leaves (members? (stringLiteral (some t) ++ ':' :: renderOnto after x)) ((.plain t, x) :: ms) rest := by
  rw [stringLiteral, List.cons_append, List.cons_append, List.append_assoc]
  exact members?_cons (skipSpaces_cons (by decide) _) (name?_plain ht _) (skipSpaces_cons (by decide) _)
    (hx after hafter) hms

/-- The members of an object are read back if each value is and no name is written with an escape. -/
theorem leaves_renderMembers {m : MemberName × Json} {ms : List (MemberName × Json)}
    (hnames : ∀ n ∈ m :: ms, ∃ t, n.1 = .plain t ∧ NeedsNoEscape t) (hvalues : ∀ n ∈ m :: ms, IsReadBack n.2)
    (rest : List Char) : Leaves (members? (renderMembers ('\x7d' :: rest) (m :: ms))) (m :: ms) rest := by
  induction ms generalizing m with
  | nil =>
    obtain ⟨name, x⟩ := m
    obtain ⟨t, rfl, ht⟩ := hnames _ List.mem_cons_self
    exact leaves_member ht (hvalues _ List.mem_cons_self) (endsBefore_cons (by decide) _)
      (.inl ⟨skipSpaces_cons (by decide) _, rfl⟩)
  | cons n more ih =>
    obtain ⟨name, x⟩ := m
    obtain ⟨t, rfl, ht⟩ := hnames _ List.mem_cons_self
    have hmore := ih (fun k hk => hnames k (List.mem_cons_of_mem _ hk)) fun k hk =>
      hvalues k (List.mem_cons_of_mem _ hk)
    exact leaves_member ht (hvalues _ List.mem_cons_self) (endsBefore_cons (by decide) _)
      (.inr ⟨_, skipSpaces_cons (by decide) _, hmore⟩)

theorem isReadBack_text (t : String) : IsReadBack (.text t) := by
  intro rest _
  have hliteral : renderOnto rest (Json.text t) = '"' :: (t.toList.flatMap escaped ++ '"' :: rest) := by
    simp [renderOnto, Json.text, stringLiteral]
  rw [hliteral]
  exact value?_string (skipSpaces_cons (by decide) _) (string?_literal t rest)

theorem isReadBack_array {n : Nat} {xs : List Json} (hxs : ∀ x ∈ xs, Writable n x) (h : ∀ x ∈ xs, IsReadBack x) :
    IsReadBack (.array xs) := by
  intro rest _
  rw [renderOnto]
  refine value?_array (skipSpaces_cons (by decide) _) ?_
  cases xs with
  | nil => exact .inl ⟨skipSpaces_cons (by decide) _, rfl⟩
  | cons x more =>
    obtain ⟨after, hitems⟩ := renderItems_cons (']' :: rest) x more
    obtain ⟨c, t, hx, hopens⟩ := (hxs x List.mem_cons_self).renderOnto_eq_cons after
    refine .inr ⟨fun u hu => hopens.2 ?_, leaves_renderItems h rest⟩
    rw [hitems, hx, skipSpaces_cons hopens.1] at hu
    rw [(List.cons.inj hu).1]
    decide

theorem isReadBack_object {ms : List (MemberName × Json)}
    (hnames : ∀ m ∈ ms, ∃ t, m.1 = .plain t ∧ NeedsNoEscape t) (h : ∀ m ∈ ms, IsReadBack m.2) :
    IsReadBack (.object ms) := by
  intro rest _
  rw [renderOnto]
  refine value?_object (skipSpaces_cons (by decide) _) ?_
  cases ms with
  | nil => exact .inl ⟨skipSpaces_cons (by decide) _, rfl⟩
  | cons m more =>
    obtain ⟨after, hmembers⟩ := renderMembers_cons ('\x7d' :: rest) m more
    refine .inr ⟨fun u hu => ?_, leaves_renderMembers hnames h rest⟩
    rw [hmembers, skipSpaces_cons (by decide)] at hu
    cases hu

/-- What is written with all it says is read back. -/
theorem Writable.isReadBack {n : Nat} {j : Json} (h : Writable n j) : IsReadBack j := by
  induction h with
  | null => exact fun rest _ => value?_scalar (skipSpaces_cons (by decide) _) (by decide) ⟨_, rfl⟩
  | bool b =>
    intro rest _
    cases b <;> exact value?_scalar (skipSpaces_cons (by decide) _) (by decide) ⟨_, rfl⟩
  | integer hlo hhi => exact isReadBack_integer hlo hhi
  | text t => exact isReadBack_text t
  | array hxs ih => exact isReadBack_array hxs ih
  | object hnames _ ih => exact isReadBack_object hnames ih

theorem parse?_of_leaves {text : String} {j : Json} (h : Leaves (value? text.toList) j []) : parse? text = some j := by
  obtain ⟨_, hvalue⟩ := h
  rw [parse?, hvalue]
  rfl

/-- Reading undoes writing. -/
theorem parse?_render {n : Nat} {j : Json} (h : Writable n j) : parse? (render j) = some j := by
  have htext : (render j).toList = renderOnto [] j := String.toList_ofList
  refine parse?_of_leaves ?_
  rw [htext]
  exact h.isReadBack [] fun c hc => nomatch hc

/-! ## Printers and readers -/

/-- How deep a document may be nested. Readers refuse deeper ones, so as not to run out of stack. -/
def maxDepth : Nat := 127

/-- A printer and a reader of documents are faithful if what the one prints the other reads back, for documents whose
text says everything about them and that are not too deep. -/
def Faithful (print : Json → String) (read : String → Option Json) : Prop :=
  ∀ j, Writable maxDepth j → read (print j) = some j

theorem faithful_render : Faithful render parse? := fun _ h => parse?_render h

end PathReplay.Json
