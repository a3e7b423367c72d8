import PathReplay.LibC.Basic

/-!
# Stacked decorations

What is left of a name under a stack of decorations. Stripping a decoration takes along the underscores after it, those
too with which a decoration below begins.

* `strip_text_thunks` : a decoration is stripped with all the thunk decorations below it;
* `strip_bare`, `undecorated_import` : where stripping ends;
* `undecorated_decorated` : what is left of a decorated name, and which function is found under it.
-/

namespace PathReplay.LibC

/-- The decorations of a name: of an entry in an import table, and of a jump to another function. -/
inductive Decoration where
  | imported
  | thunk
deriving DecidableEq

namespace Decoration

/-- What a decoration puts in front of a name. -/
def label : Decoration → String
  | imported => "__imp_"
  | thunk => "j_"

def text (ds : List Decoration) (cs : List Char) : List Char := ds.foldr (fun d cs => d.label.toList ++ cs) cs

end Decoration

/-- A name under decorations, of which the first is outermost. -/
def decorated (ds : List Decoration) (name : String) : String := ds.foldr (fun d name => d.label ++ name) name

/-- A name that begins neither with an underscore nor as a jump to a function does. -/
def IsBare (name : String) : Prop := ¬['_'] <+: name.toList ∧ ¬['j', '_'] <+: name.toList

instance (name : String) : Decidable (IsBare name) := inferInstanceAs (Decidable (_ ∧ _))

open Decoration

theorem toList_decorated (ds : List Decoration) (name : String) : (decorated ds name).toList = text ds name.toList := by
  induction ds with
  | nil => rfl
  | cons d ds ih => exact String.toList_append.trans (congrArg (d.label.toList ++ ·) ih)

variable {cs : List Char}

theorem strip_of_fixed (h : stripOnce cs = cs) : strip cs = cs := by
  rw [strip, h, if_neg (Nat.lt_irrefl _)]

/-- A decoration is stripped with all underscores after it. -/
theorem strip_label (d : Decoration) (cs : List Char) :
    strip (d.label.toList ++ cs) = strip (cs.dropWhile (· == '_')) := by
  have honce : stripOnce (d.label.toList ++ cs) = cs.dropWhile (· == '_') := by cases d <;> rfl
  have hlabel : 0 < d.label.toList.length := by cases d <;> decide
  have hle : (cs.dropWhile (· == '_')).length ≤ cs.length := (List.dropWhile_suffix _).length_le
  rw [strip, honce, if_pos (by rw [List.length_append]; omega)]

/-- A decoration is stripped with all the thunk decorations below it, and the underscores after those. -/
theorem strip_text_thunks (d : Decoration) (n : Nat) (cs : List Char) :
    strip (text (d :: List.replicate n .thunk) cs) = strip (cs.dropWhile (· == '_')) := by
  induction n generalizing d with
  | zero => exact strip_label d cs
  | succ n ih => exact (strip_label d _).trans (ih .thunk)

/-- A bare name is left as it is. -/
theorem strip_bare {name : String} (h : IsBare name) : strip name.toList = name.toList ∧
    name.toList.dropWhile (· == '_') = name.toList := by
  obtain ⟨hunderscore, hjump⟩ := h
  generalize name.toList = cs at hunderscore hjump
  have hdrop : cs.dropWhile (· == '_') = cs := by
    cases cs with
    | nil => rfl
    | cons c cs =>
      refine List.dropWhile_cons_of_neg fun hc => hunderscore ?_
      rw [eq_of_beq hc]
      exact List.prefix_append ['_'] cs
  have hdecoration : dropDecoration cs = cs := by
    unfold dropDecoration
    split
    · exact absurd (List.prefix_append ['_'] _) hunderscore
    · exact absurd (List.prefix_append ['j', '_'] _) hjump
    · rfl
  exact ⟨strip_of_fixed (by rw [stripOnce, hdecoration, hdrop]), hdrop⟩

/-- A name keeps its characters under decorations. -/
theorem suffix_text (ds : List Decoration) (cs : List Char) : cs <:+ text ds cs := by
  induction ds with
  | nil => exact List.suffix_rfl
  | cons d ds ih => exact ih.trans (List.suffix_append _ _)

/-- A stack of decorations has none of an import below the outermost one, or a first one. -/
theorem stack_cases (ds : List Decoration) :
    .imported ∉ ds.tail ∧ (ds = [] ∨ ∃ d n, ds = d :: List.replicate n .thunk) ∨
      .imported ∈ ds.tail ∧ ∃ d n below, ds = d :: (List.replicate n .thunk ++ .imported :: below) := by
  have hsplit : ∀ ds : List Decoration, .imported ∉ ds ∧ ds = List.replicate ds.length .thunk ∨
      .imported ∈ ds ∧ ∃ n below, ds = List.replicate n .thunk ++ .imported :: below := fun ds => by
    induction ds with
    | nil => exact .inl ⟨List.not_mem_nil, rfl⟩
    | cons d ds ih =>
      cases d with
      | imported => exact .inr ⟨List.mem_cons_self, 0, ds, rfl⟩
      | thunk =>
        rcases ih with ⟨hmem, h⟩ | ⟨hmem, n, below, h⟩
        · exact .inl ⟨List.not_mem_cons_of_ne_of_not_mem (by decide) hmem, congrArg (Decoration.thunk :: ·) h⟩
        · exact .inr ⟨List.mem_cons_of_mem _ hmem, n + 1, below, congrArg (Decoration.thunk :: ·) h⟩
  cases ds with
  | nil => exact .inl ⟨List.not_mem_nil, .inl rfl⟩
  | cons d ds =>
    rcases hsplit ds with ⟨hmem, h⟩ | ⟨hmem, n, below, h⟩
    · exact .inl ⟨hmem, .inr ⟨d, ds.length, congrArg (d :: ·) h⟩⟩
    · exact .inr ⟨hmem, d, n, below, congrArg (d :: ·) h⟩

theorem undecorated_eq (ds : List Decoration) (name : String) :
    undecorated (decorated ds name) = String.ofList (strip (text ds name.toList)) :=
  congrArg (String.ofList ∘ strip) (toList_decorated ds name)

/-- Of a first decoration of an import below the outermost decoration the underscores are stripped with what is above
it, and the rest is not recognised any more. -/
theorem undecorated_import (d : Decoration) (n : Nat) (below : List Decoration) (name : String) :
    undecorated (decorated (d :: (List.replicate n .thunk ++ .imported :: below)) name) =
      "imp_" ++ decorated below name := by
  have htext : text (d :: (List.replicate n .thunk ++ .imported :: below)) name.toList =
      text (d :: List.replicate n .thunk) ((label .imported).toList ++ text below name.toList) := by
    rw [text, ← List.cons_append, List.foldr_append]
    rfl
  have hfixed : strip ("imp_".toList ++ text below name.toList) = "imp_".toList ++ text below name.toList :=
    strip_of_fixed rfl
  rw [undecorated_eq, htext, strip_text_thunks]
  refine (congrArg String.ofList hfixed).trans ?_
  rw [← toList_decorated, ← String.toList_append, String.ofList_toList]

/-- No function is known by a name that begins as what is left of an import's decoration. -/
theorem find?_import {name rest : String} (h : undecorated name = "imp_" ++ rest) : find? name = none := by
  have hcatalogue : ∀ entry ∈ catalogue, entry.1.toList.take 4 ≠ "imp_".toList := by decide +kernel
  have hbare : (bareName name).toList.take 4 = "imp_".toList := by
    rw [bareName, h, Text.lowercase, String.toList_map, String.toList_append, List.map_append]
    rfl
  refine List.lookup_eq_none_iff.2 fun entry hentry => bne_iff_ne.2 fun hname => hcatalogue entry hentry ?_
  rw [← hname, hbare]

/-- Stripping a stack of decorations off a bare name gives the name, under which the same function is found, when none
below the outermost one is an import's. Of the first import's decoration below it all but the underscores stays, with
what is below, and no function is found. -/
theorem undecorated_decorated (ds : List Decoration) {name : String} (hname : IsBare name) :
    (undecorated (decorated ds name) = name ↔ .imported ∉ ds.tail) ∧
      (∀ d n below, ds = d :: (List.replicate n .thunk ++ .imported :: below) →
        undecorated (decorated ds name) = "imp_" ++ decorated below name) ∧
      find? (decorated ds name) = if .imported ∈ ds.tail then none else find? name := by
  obtain ⟨hstrip, hdrop⟩ := strip_bare hname
  have himport : ∀ d n below, ds = d :: (List.replicate n .thunk ++ .imported :: below) →
      undecorated (decorated ds name) = "imp_" ++ decorated below name := fun d n below hds =>
    hds ▸ undecorated_import d n below name
  rcases stack_cases ds with ⟨hmem, hds⟩ | ⟨hmem, d, n, below, hds⟩
  · have hself : undecorated name = name := (congrArg String.ofList hstrip).trans String.ofList_toList
    have hundecorated : undecorated (decorated ds name) = name := by
      rcases hds with rfl | ⟨d, n, rfl⟩
      · exact hself
      · rw [undecorated_eq, strip_text_thunks, hdrop, hstrip, String.ofList_toList]
    refine ⟨iff_of_true hundecorated hmem, himport, ?_⟩
    rw [if_neg hmem, find?, find?, bareName, bareName, hundecorated, hself]
  · have hleft := himport d n below hds
    refine ⟨iff_of_false (fun h => ?_) (fun h => h hmem), himport, (find?_import hleft).trans (if_pos hmem).symm⟩
    have hlength : ("imp_".toList ++ text below name.toList).length = name.toList.length := by
      rw [← toList_decorated, ← String.toList_append, ← hleft, h]
    have hle := (suffix_text below name.toList).length_le
    rw [List.length_append, show "imp_".toList.length = 4 from rfl] at hlength
    omega

/-- An entry in an import table that jumps to another function. -/
theorem undecorated_imported_thunk :
    IsBare "strcpy" ∧ undecorated "__imp_j_strcpy" = "strcpy" ∧ find? "__imp_j_strcpy" = find? "strcpy" := by
  have hbare : IsBare "strcpy" := by decide
  obtain ⟨hname, -, hfind⟩ := undecorated_decorated [.imported, .thunk] hbare
  exact ⟨hbare, hname.2 (by decide), hfind⟩

/-- A jump to an entry in an import table is stripped of too much. -/
theorem undecorated_thunk_imported :
    IsBare "strcpy" ∧ decorated [.thunk, .imported] "strcpy" = "j___imp_strcpy" ∧
      undecorated "j___imp_strcpy" = "imp_strcpy" ∧ find? "j___imp_strcpy" = none ∧
      find? "strcpy" = some ⟨.strcpy, .cdecl⟩ := by
  have hleft : undecorated "j___imp_strcpy" = "imp_strcpy" := undecorated_import .thunk 0 [] "strcpy"
  have hsplit : undecorated "j___imp_strcpy" = "imp_" ++ "strcpy" := hleft
  exact ⟨by decide, rfl, hleft, find?_import hsplit, by decide +kernel⟩

end PathReplay.LibC
