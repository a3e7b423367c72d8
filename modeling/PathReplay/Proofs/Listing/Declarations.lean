import Mathlib.Data.List.Forall2
import PathReplay.Machine.Arguments
import PathReplay.Proofs.Text.Trimming

/-!
# Declarations read back

* `splitLast_eq_some_iff` : where a declaration is split;
* `Declaration.parse?_of_split` : what is read from a declaration that is split after one byte;
* `Declaration.WellFormed`, `Declaration.Renders` : the declarations that can be read back, and from which texts;
* `Signature.rebuilt_from_renderings` : a signature is rebuilt from the texts of its arguments;
* `Declaration.splitByte?` : the byte at which a declaration is split; `isValid_splitByte_iff` : when that is between
  two characters;
* `Declaration.parse?_exact` : a declaration is read unless its last separator takes several bytes.
-/

namespace PathReplay

variable {cs before after : List Char} {sep : Char}

theorem isSeparator_eq_false_iff {c : Char} : isSeparator c = false ↔ Text.isBlank c = false ∧ c ≠ '*' := by
  simp [isSeparator]

/-- A text is split at a separator without another one after it. -/
theorem splitLast_eq_some_iff : splitLast cs = some (before, sep, after) ↔
    cs = before ++ sep :: after ∧ isSeparator sep = true ∧ ∀ c ∈ after, isSeparator c = false := by
  constructor
  · intro h
    refine ⟨(append_of_splitLast h).symm, ?_⟩
    unfold splitLast at h
    split at h
    · cases h
    · rename_i s b hdrop
      cases h
      constructor
      · have hhead := List.head?_dropWhile_not (fun c => !isSeparator c) cs.reverse
        rw [hdrop] at hhead
        simpa using hhead
      · intro c hc
        have hkept := List.mem_takeWhile_imp (List.mem_reverse.1 hc)
        simpa using hkept
  · rintro ⟨rfl, hsep, hafter⟩
    have hrest : ∀ c ∈ after.reverse, (!isSeparator c) = true := fun c hc => by
      simp [hafter c (List.mem_reverse.1 hc)]
    have hreverse : (before ++ sep :: after).reverse = after.reverse ++ sep :: before.reverse := by simp
    have hdrop : (before ++ sep :: after).reverse.dropWhile (fun c => !isSeparator c) = sep :: before.reverse := by
      rw [hreverse, List.dropWhile_append_of_pos hrest, List.dropWhile_cons_of_neg (by simp [hsep])]
    have htake : (before ++ sep :: after).reverse.takeWhile (fun c => !isSeparator c) = after.reverse := by
      rw [hreverse, List.takeWhile_append_of_pos hrest, List.takeWhile_cons_of_neg (by simp [hsep]), List.append_nil]
    rw [splitLast, hdrop, htake]
    simp

namespace Declaration

variable {d : Declaration} {text : String}

/-! ## What a split gives -/

theorem parse?_of_splitLast_none (hsplit : splitLast (Text.trimmed text.toList) = none) (position : Nat) :
    parse? text position = some ⟨String.ofList (Text.trimmed text.toList), positional position⟩ := by
  unfold parse?
  dsimp only
  rw [hsplit]

theorem parse?_of_splitLast_some (hsplit : splitLast (Text.trimmed text.toList) = some (before, sep, after))
    (position : Nat) : parse? text position =
      if sep.utf8Size = 1 then
        if after = [] then some ⟨String.ofList (Text.trimmed text.toList), positional position⟩
        else some ⟨String.ofList (Text.trimmedRight (before ++ [sep])), String.ofList after⟩
      else none := by
  unfold parse?
  dsimp only
  rw [hsplit]
  simp

theorem parse?_of_split (htrimmed : Text.trimmed text.toList = before ++ sep :: after) (hsep : isSeparator sep = true)
    (hsize : sep.utf8Size = 1) (hne : after ≠ []) (hafter : ∀ c ∈ after, isSeparator c = false) (position : Nat) :
    parse? text position = some ⟨String.ofList (Text.trimmedRight (before ++ [sep])), String.ofList after⟩ := by
  rw [parse?_of_splitLast_some (splitLast_eq_some_iff.2 ⟨htrimmed, hsep, hafter⟩), if_pos hsize, if_neg hne]

/-! ## Renderings -/

/-- A type without blanks at its ends, and a name without blanks and asterisks. Neither is empty. -/
structure WellFormed (d : Declaration) : Prop where
  typeName_ne : d.typeName ≠ ""
  typeName_head : ∀ c ∈ d.typeName.toList.head?, Text.isBlank c = false
  typeName_last : ∀ c ∈ d.typeName.toList.getLast?, Text.isBlank c = false
  name_ne : d.name ≠ ""
  name_plain : ∀ c ∈ d.name.toList, Text.isBlank c = false ∧ c ≠ '*'

def isWellFormed (d : Declaration) : Bool :=
  !d.typeName.isEmpty && d.typeName.toList.head?.all (!Text.isBlank ·) &&
    d.typeName.toList.getLast?.all (!Text.isBlank ·) && !d.name.isEmpty && d.name.toList.all (!isSeparator ·)

theorem isWellFormed_iff : d.isWellFormed = true ↔ d.WellFormed := by
  simp only [isWellFormed, Bool.and_eq_true, Bool.not_eq_true', String.isEmpty_eq_false_iff, Option.all_eq_true,
    List.all_eq_true, isSeparator_eq_false_iff]
  constructor
  · rintro ⟨⟨⟨⟨htype, hhead⟩, hlast⟩, hname⟩, hplain⟩
    exact ⟨htype, hhead, hlast, hname, hplain⟩
  · rintro ⟨htype, hhead, hlast, hname, hplain⟩
    exact ⟨⟨⟨⟨htype, hhead⟩, hlast⟩, hname⟩, hplain⟩

instance : Decidable d.WellFormed := decidable_of_iff _ isWellFormed_iff

/-- The texts of a declaration: by itself, and as it stands in the declaration of a function. -/
def Renders (d : Declaration) (text : String) : Prop := text = d.render ∨ text = d.inline

namespace WellFormed

theorem isSeparator_name (h : d.WellFormed) : ∀ c ∈ d.name.toList, isSeparator c = false :=
  fun c hc => isSeparator_eq_false_iff.2 (h.name_plain c hc)

theorem name_toList_ne (h : d.WellFormed) : d.name.toList ≠ [] :=
  fun hnil => h.name_ne (String.toList_eq_nil_iff.1 hnil)

theorem typeName_toList_ne (h : d.WellFormed) : d.typeName.toList ≠ [] :=
  fun hnil => h.typeName_ne (String.toList_eq_nil_iff.1 hnil)

/-- A type, something, and a name make up a text without blanks at its ends. -/
theorem trimmed_append (h : d.WellFormed) (middle : List Char) :
    Text.trimmed (d.typeName.toList ++ middle ++ d.name.toList) = d.typeName.toList ++ middle ++ d.name.toList := by
  refine Text.trimmed_eq_iff.2 ⟨⟨[], [], by simp, by simp, by simp⟩, fun c hc => h.typeName_head c ?_, fun c hc => ?_⟩
  · rw [List.append_assoc, Option.mem_def, List.head?_append] at hc
    rcases Option.or_eq_some_iff.1 hc with hc | ⟨hnone, -⟩
    · exact hc
    · exact absurd (List.head?_eq_none_iff.1 hnone) h.typeName_toList_ne
  · rw [Option.mem_def, List.getLast?_append] at hc
    rcases Option.or_eq_some_iff.1 hc with hc | ⟨hnone, -⟩
    · exact (h.name_plain c (List.mem_of_getLast? hc)).1
    · exact absurd (List.getLast?_eq_none_iff.1 hnone) h.name_toList_ne

theorem trimmedRight_typeName (h : d.WellFormed) : Text.trimmedRight d.typeName.toList = d.typeName.toList :=
  Text.trimmedRight_eq_self fun c hc => h.typeName_last c hc

theorem parse?_render (h : d.WellFormed) (position : Nat) : parse? d.render position = some d := by
  have htext : Text.trimmed d.render.toList = d.typeName.toList ++ ' ' :: d.name.toList := by
    have htrimmed := h.trimmed_append [' ']
    rw [render, String.toList_append, String.toList_append, show (" " : String).toList = [' '] from rfl, htrimmed]
    simp
  have htype : Text.trimmedRight (d.typeName.toList ++ [' ']) = d.typeName.toList := by
    rw [Text.trimmedRight_append (by simp [Text.isBlank]), h.trimmedRight_typeName]
  rw [parse?_of_split htext rfl rfl h.name_toList_ne h.isSeparator_name, htype, String.ofList_toList,
    String.ofList_toList]

theorem parse?_inline (h : d.WellFormed) (position : Nat) : parse? d.inline position = some d := by
  by_cases hpointer : d.typeName.toList.getLast? = some '*'
  · obtain ⟨front, hfront⟩ := List.getLast?_eq_some_iff.1 hpointer
    have htext : Text.trimmed d.inline.toList = front ++ '*' :: d.name.toList := by
      have htrimmed := h.trimmed_append []
      rw [inline, separatorAfter, if_pos hpointer, String.toList_append, String.toList_append,
        show ("" : String).toList = [] from rfl, htrimmed, hfront]
      simp
    rw [parse?_of_split htext rfl rfl h.name_toList_ne h.isSeparator_name, ← hfront, h.trimmedRight_typeName,
      String.ofList_toList, String.ofList_toList]
  · have hinline : d.inline = d.render := by rw [inline, separatorAfter, if_neg hpointer, render]
    rw [hinline, h.parse?_render]

theorem parse?_of_renders (h : d.WellFormed) (ht : d.Renders text) (position : Nat) :
    parse? text position = some d := by
  rcases ht with rfl | rfl
  · exact h.parse?_render position
  · exact h.parse?_inline position

end WellFormed
end Declaration

namespace Signature

/-- Arguments in either rendering are added one after the other. -/
theorem foldlM_pushArgument? {ds : List Declaration} {texts : List String}
    (htexts : List.Forall₂ Declaration.Renders ds texts) (hds : ∀ d ∈ ds, d.WellFormed) (s : Signature) :
    texts.foldlM pushArgument? s = some { s with args := s.args ++ ds } := by
  induction htexts generalizing s with
  | nil => simp
  | @cons d text ds texts ht _ ih =>
    have hd : d.WellFormed := hds d List.mem_cons_self
    have hpush : s.pushArgument? text = some { s with args := s.args ++ [d] } := by
      rw [pushArgument?, hd.parse?_of_renders ht, Option.map_some]
    have hrest : ∀ d ∈ ds, d.WellFormed := fun d hd => hds d (List.mem_cons_of_mem _ hd)
    rw [List.foldlM_cons, hpush, Option.bind_eq_bind, Option.bind_some, ih hrest]
    simp

/-- A declaration is read back from its text alone and from the one within a function's declaration, at every position.
So arguments in either rendering add up to the signature that has them after its own: its declaration is the same, and
so are the arguments in every machine. -/
theorem rebuilt_from_renderings :
    (∀ d : Declaration, d.WellFormed → ∀ position,
      Declaration.parse? d.render position = some d ∧ Declaration.parse? d.inline position = some d) ∧
    ∀ (s : Signature) (ds : List Declaration) (texts : List String), (∀ d ∈ ds, d.WellFormed) →
      List.Forall₂ Declaration.Renders ds texts →
      ∃ rebuilt, texts.foldlM pushArgument? s = some rebuilt ∧ rebuilt.args = s.args ++ ds ∧
        rebuilt.declaration = { s with args := s.args ++ ds }.declaration ∧
        ∀ m : Machine, m.argumentsOf rebuilt = m.argumentsOf { s with args := s.args ++ ds } := by
  refine ⟨fun d hd position => ⟨hd.parse?_render position, hd.parse?_inline position⟩, fun s ds texts hds htexts => ?_⟩
  exact ⟨_, foldlM_pushArgument? htexts hds s, rfl, rfl, fun m => rfl⟩

/-- Two arguments whose types have blanks and asterisks inside, in one rendering each. -/
theorem rebuilt_from_pointers :
    let argv : Declaration := ⟨"const char * *", "argv"⟩
    let count : Declaration := ⟨"unsigned\u3000int", "n"⟩
    let s : Signature := ⟨0x1000, "f", "int", .cdecl, []⟩
    argv.WellFormed ∧ count.WellFormed ∧
      ∃ rebuilt, ["const char * *argv", "unsigned\u3000int n"].foldlM pushArgument? s = some rebuilt ∧
        rebuilt.args = [argv, count] ∧
        rebuilt.declaration = "int __cdecl f(const char * *argv, unsigned\u3000int n);" := by
  intro argv count s
  have hargv : argv.WellFormed := by decide +kernel
  have hcount : count.WellFormed := by decide +kernel
  have htexts : List.Forall₂ Declaration.Renders [argv, count] ["const char * *argv", "unsigned\u3000int n"] :=
    .cons (.inr (by decide +kernel)) (.cons (.inl (by decide +kernel)) .nil)
  obtain ⟨rebuilt, hrebuilt, hargs, hdeclaration, -⟩ :=
    rebuilt_from_renderings.2 s [argv, count] _ (by simp [hargv, hcount]) htexts
  exact ⟨hargv, hcount, rebuilt, hrebuilt, hargs, hdeclaration.trans (by decide +kernel)⟩

end Signature

/-! ## The split by bytes -/

namespace Declaration

variable {decl text : String} {i : Nat}

/-- The byte at which a declaration is split into a type and a name: one after its last separator starts, unless the
declaration ends there. -/
def splitByte? (decl : String) : Option Nat :=
  (splitLast decl.toList).bind fun (before, _, _) =>
    let i := (String.ofList before).utf8ByteSize + 1
    if i < decl.utf8ByteSize then some i else none

theorem utf8ByteSize_split (before : List Char) (sep : Char) (after : List Char) :
    (String.ofList (before ++ sep :: after)).utf8ByteSize =
      (String.ofList before).utf8ByteSize + sep.utf8Size + (String.ofList after).utf8ByteSize := by
  rw [String.ofList_append, String.ofList_cons, String.utf8ByteSize_append, String.utf8ByteSize_append,
    String.utf8ByteSize_singleton, Nat.add_assoc]

/-- One byte after a character starts, the next one starts if the character takes one byte. -/
theorem isValid_succ_iff (before : List Char) (sep : Char) (after : List Char) :
    String.Pos.Raw.IsValid (String.ofList (before ++ sep :: after)) ⟨(String.ofList before).utf8ByteSize + 1⟩ ↔
      sep.utf8Size = 1 := by
  have hpos : 0 < sep.utf8Size := sep.utf8Size_pos
  have hinside : ¬ String.Pos.Raw.IsValid (String.ofList before) ⟨(String.ofList before).utf8ByteSize + 1⟩ :=
    fun h => Nat.not_succ_le_self _ h.le_utf8ByteSize
  have hsub : (⟨(String.ofList before).utf8ByteSize + 1⟩ : String.Pos.Raw) - String.ofList before = ⟨1⟩ := by
    rw [String.Pos.Raw.ext_iff]
    exact Nat.add_sub_cancel_left _ _
  rw [String.ofList_append, String.ofList_cons, String.Pos.Raw.isValid_append, hsub]
  constructor
  · rintro (h | ⟨-, h⟩)
    · exact absurd h hinside
    · rcases String.Pos.Raw.isValid_append.1 h with h | ⟨hle, -⟩
      · rcases String.Pos.Raw.isValid_singleton.1 h with h | h
        · exact absurd (congrArg String.Pos.Raw.byteIdx h) (by decide)
        · exact h.symm
      · have hle : sep.utf8Size ≤ 1 := by simpa [String.Pos.Raw.le_iff] using hle
        omega
  · intro hsize
    have hend : (⟨1⟩ : String.Pos.Raw).byteIdx = sep.utf8Size := hsize.symm
    refine .inr ⟨?_, (String.Pos.Raw.isValid_singleton.2 (.inr hend)).append_right _⟩
    exact Nat.le_succ _

/-- A separator that takes several bytes is a blank. -/
theorem isBlank_of_isSeparator (hsep : isSeparator sep = true) (hsize : sep.utf8Size ≠ 1) :
    Text.isBlank sep = true := by
  rcases Bool.or_eq_true_iff.1 hsep with hblank | hstar
  · exact hblank
  · exact absurd (congrArg Char.utf8Size (eq_of_beq hstar)) hsize

theorem lt_of_splitByte?_eq_some (h : splitByte? decl = some i) : i < decl.utf8ByteSize := by
  obtain ⟨_, _, hi⟩ := Option.bind_eq_some_iff.1 h
  obtain ⟨hlt, hi⟩ := Option.ite_none_right_eq_some.1 hi
  exact Option.some_inj.1 hi ▸ hlt

/-- There is something to split off unless the last separator is the last byte. -/
theorem splitByte?_eq_some_iff : splitByte? decl = some i ↔ ∃ before sep after,
    splitLast decl.toList = some (before, sep, after) ∧ (sep.utf8Size = 1 → after ≠ []) ∧
      (String.ofList before).utf8ByteSize + 1 = i := by
  have hlt : ∀ before sep after, splitLast decl.toList = some (before, sep, after) →
      ((String.ofList before).utf8ByteSize + 1 < decl.utf8ByteSize ↔ (sep.utf8Size = 1 → after ≠ [])) := by
    intro before sep after h
    have hbytes := utf8ByteSize_split before sep after
    rw [append_of_splitLast h, String.ofList_toList] at hbytes
    have hpos : 0 < sep.utf8Size := sep.utf8Size_pos
    have hafter : after = [] ↔ (String.ofList after).utf8ByteSize = 0 := by
      rw [String.utf8ByteSize_eq_zero_iff, String.ofList_eq_empty_iff]
    rw [Ne, hafter, hbytes]
    omega
  unfold splitByte?
  rw [Option.bind_eq_some_iff]
  constructor
  · rintro ⟨⟨before, sep, after⟩, hsplit, hi⟩
    obtain ⟨hinside, hi⟩ := Option.ite_none_right_eq_some.1 hi
    exact ⟨before, sep, after, hsplit, (hlt _ _ _ hsplit).1 hinside, Option.some_inj.1 hi⟩
  · rintro ⟨before, sep, after, hsplit, hrest, rfl⟩
    exact ⟨(before, sep, after), hsplit, if_pos ((hlt _ _ _ hsplit).2 hrest)⟩

theorem isValid_splitByte_iff (hsplit : splitLast decl.toList = some (before, sep, after)) :
    String.Pos.Raw.IsValid decl ⟨(String.ofList before).utf8ByteSize + 1⟩ ↔ sep.utf8Size = 1 := by
  have hvalid := isValid_succ_iff before sep after
  rwa [append_of_splitLast hsplit, String.ofList_toList] at hvalid

/-- Two ways to take a text apart are the same if they are at the same byte. -/
theorem eq_of_append_eq {l l' r r' : String} (h : l ++ r = l' ++ r') (hbytes : l.utf8ByteSize = l'.utf8ByteSize) :
    l = l' ∧ r = r' := by
  have hnil : ∀ {a b : String} {rest : List Char}, a.toList = b.toList ++ rest → a.utf8ByteSize = b.utf8ByteSize →
      a = b := by
    intro a b rest hab hsize
    have happend : a = b ++ String.ofList rest := by
      rw [← String.toList_inj, hab, String.toList_append, String.toList_ofList]
    have hrest : (String.ofList rest).utf8ByteSize = 0 := by
      have hsum := congrArg String.utf8ByteSize happend
      rw [String.utf8ByteSize_append] at hsum
      omega
    rw [happend, String.utf8ByteSize_eq_zero_iff.1 hrest, String.append_empty]
  have hl : l = l' := by
    have hlist := congrArg String.toList h
    rw [String.toList_append, String.toList_append] at hlist
    rcases List.append_eq_append_iff.1 hlist with ⟨rest, hrest, -⟩ | ⟨rest, hrest, -⟩
    · exact (hnil hrest hbytes.symm).symm
    · exact hnil hrest hbytes
  subst hl
  exact ⟨rfl, (String.append_right_inj l).1 h⟩

theorem parse?_eq_none_iff (position : Nat) : parse? text position = none ↔
    ∃ before sep after, splitLast (Text.trimmed text.toList) = some (before, sep, after) ∧ sep.utf8Size ≠ 1 := by
  cases hsplit : splitLast (Text.trimmed text.toList) with
  | none =>
    rw [parse?_of_splitLast_none hsplit]
    simp
  | some parts =>
    obtain ⟨before, sep, after⟩ := parts
    rw [parse?_of_splitLast_some hsplit]
    by_cases hsize : sep.utf8Size = 1
    · rw [if_pos hsize]
      refine iff_of_false (by split <;> simp) ?_
      rintro ⟨_, _, _, heq, hne⟩
      cases heq
      exact hne hsize
    · rw [if_neg hsize]
      exact iff_of_true rfl ⟨before, sep, after, rfl, hsize⟩

/-! ### Readings by bytes

In what follows the trimmed text is a string of its own, in which bytes are counted. -/

section ByBytes

variable (hdecl : decl.toList = Text.trimmed text.toList) (position : Nat)
include hdecl

/-- A text has no reading if the byte at which it is split is inside a character. -/
theorem parse?_eq_none_iff_splitByte :
    parse? text position = none ↔ ∃ i, splitByte? decl = some i ∧ ¬ String.Pos.Raw.IsValid decl ⟨i⟩ := by
  rw [parse?_eq_none_iff, ← hdecl]
  constructor
  · rintro ⟨before, sep, after, hsplit, hsize⟩
    exact ⟨_, splitByte?_eq_some_iff.2 ⟨before, sep, after, hsplit, fun h => absurd h hsize, rfl⟩,
      fun hvalid => hsize ((isValid_splitByte_iff hsplit).1 hvalid)⟩
  · rintro ⟨i, hi, hinvalid⟩
    obtain ⟨before, sep, after, hsplit, -, rfl⟩ := splitByte?_eq_some_iff.1 hi
    exact ⟨before, sep, after, hsplit, fun hsize => hinvalid ((isValid_splitByte_iff hsplit).2 hsize)⟩

theorem parse?_eq_none_iff_wide_blank : parse? text position = none ↔
    ∃ before sep after, decl.toList = before ++ sep :: after ∧
      Text.isBlank sep = true ∧ 1 < sep.utf8Size ∧ ∀ c ∈ after, isSeparator c = false := by
  rw [parse?_eq_none_iff, ← hdecl]
  simp only [splitLast_eq_some_iff]
  constructor
  · rintro ⟨before, sep, after, ⟨hparts, hsep, hafter⟩, hsize⟩
    have hpos : 0 < sep.utf8Size := sep.utf8Size_pos
    exact ⟨before, sep, after, hparts, isBlank_of_isSeparator hsep hsize, by omega, hafter⟩
  · rintro ⟨before, sep, after, hparts, hblank, hsize, hafter⟩
    exact ⟨before, sep, after, ⟨hparts, by rw [isSeparator, hblank, Bool.true_or], hafter⟩, by omega⟩

/-- A split between two characters leaves the type, up to blanks at its end, and the name. -/
theorem parse?_of_splitByte?_some {front name : String} (hparts : decl = front ++ name)
    (hi : splitByte? decl = some front.utf8ByteSize) :
    parse? text position = some ⟨String.ofList (Text.trimmedRight front.toList), name⟩ := by
  obtain ⟨before, sep, after, hsplit, hrest, hbytes⟩ := splitByte?_eq_some_iff.1 hi
  have hsize : sep.utf8Size = 1 := by
    rw [← isValid_splitByte_iff hsplit, hbytes, String.Pos.Raw.isValid_iff_exists_append]
    exact ⟨front, name, hparts, rfl⟩
  have hchars : decl = String.ofList (before ++ [sep]) ++ String.ofList after := by
    rw [← String.ofList_append, List.append_assoc, List.singleton_append, append_of_splitLast hsplit,
      String.ofList_toList]
  have hfront : front.utf8ByteSize = (String.ofList (before ++ [sep])).utf8ByteSize := by
    rw [← hbytes, utf8ByteSize_split, hsize]
    rfl
  obtain ⟨rfl, rfl⟩ := eq_of_append_eq (hparts.symm.trans hchars) hfront
  rw [hdecl] at hsplit
  rw [parse?_of_splitLast_some hsplit, if_pos hsize, if_neg (hrest hsize), String.toList_ofList]

/-- A text that is not split is a type. -/
theorem parse?_of_splitByte?_none (hnone : splitByte? decl = none) :
    parse? text position = some ⟨decl, positional position⟩ := by
  have htext : String.ofList (Text.trimmed text.toList) = decl := by rw [← hdecl, String.ofList_toList]
  cases hsplit : splitLast decl.toList with
  | none => rw [parse?_of_splitLast_none (hdecl ▸ hsplit), htext]
  | some parts =>
    obtain ⟨before, sep, after⟩ := parts
    have hlast : sep.utf8Size = 1 ∧ after = [] := by
      by_contra hrest
      rw [not_and] at hrest
      rw [splitByte?_eq_some_iff.2 ⟨before, sep, after, hsplit, hrest, rfl⟩] at hnone
      cases hnone
    rw [parse?_of_splitLast_some (hdecl ▸ hsplit), if_pos hlast.1, if_pos hlast.2, htext]

end ByBytes

/-- A declaration has a reading unless the byte at which it is split is inside a character. That is the case exactly if
its last separator is a blank that takes several bytes. The byte is never past the end. What is in front of it is the
type, up to blanks at its end, and what follows is the name; a declaration that is not split is a type without a
name. -/
theorem parse?_exact (text : String) (position : Nat) :
    let decl := String.ofList (Text.trimmed text.toList)
    (∀ i, splitByte? decl = some i → i < decl.utf8ByteSize) ∧
    (parse? text position = none ↔ ∃ i, splitByte? decl = some i ∧ ¬ String.Pos.Raw.IsValid decl ⟨i⟩) ∧
    (parse? text position = none ↔ ∃ before sep after, decl.toList = before ++ sep :: after ∧
      Text.isBlank sep = true ∧ 1 < sep.utf8Size ∧ ∀ c ∈ after, isSeparator c = false) ∧
    (∀ front name : String, decl = front ++ name → splitByte? decl = some front.utf8ByteSize →
      parse? text position = some ⟨String.ofList (Text.trimmedRight front.toList), name⟩) ∧
    (splitByte? decl = none → parse? text position = some ⟨decl, positional position⟩) := by
  intro decl
  have hdecl : decl.toList = Text.trimmed text.toList := String.toList_ofList
  exact ⟨fun i => lt_of_splitByte?_eq_some, parse?_eq_none_iff_splitByte hdecl position,
    parse?_eq_none_iff_wide_blank hdecl position, fun front name => parse?_of_splitByte?_some hdecl position,
    parse?_of_splitByte?_none hdecl position⟩

/-- A blank of three bytes does no harm in front of an asterisk. -/
theorem parse?_wide_blank_in_type :
    splitByte? "int\u3000*x" = some "int\u3000*".utf8ByteSize ∧
      parse? " int\u3000*x" 1 = some ⟨"int\u3000*", "x"⟩ := by
  have hsplit : splitByte? "int\u3000*x" = some "int\u3000*".utf8ByteSize := by decide +kernel
  have htrimmed : String.ofList (Text.trimmed " int\u3000*x".toList) = "int\u3000*x" := by decide +kernel
  obtain ⟨-, -, -, hread, -⟩ := parse?_exact " int\u3000*x" 1
  rw [htrimmed] at hread
  exact ⟨hsplit, hread "int\u3000*" "x" (by decide +kernel) hsplit⟩

/-- In front of the name it is taken apart. -/
theorem parse?_wide_blank :
    splitByte? "int\u3000x" = some 4 ∧ ¬ String.Pos.Raw.IsValid "int\u3000x" ⟨4⟩ ∧ parse? "int\u3000x" 1 = none := by
  refine ⟨by decide +kernel, ?_, by decide +kernel⟩
  rw [← String.Pos.Raw.isValid_eq_true_iff]
  decide +kernel

end Declaration
end PathReplay
