import PathReplay.Proofs.Json.RoundTrip
import PathReplay.Listing.Export

/-!
# Listings that are read back

* `Decoder.Inverts` : a decoder gives back what an encoder wrote, and what it wrote is writable;
* `Decoder.Inverts.list`, `Decoder.Inverts.optional`, `Decoder.Inverts.addressMap` : lists, options and maps of values;
* `Json.fields?_record` : the values of a record's members stand in the order of their names;
* `Listing.parseWith?_print` : every listing is read back from its export, by any faithful printer and reader.
-/

namespace PathReplay

open Json NumberLiteral

/-! ## Encoders and their decoders -/

namespace Decoder

variable {α : Type} {d : Decoder α} {e : α → Json} {n : Nat}

/-- A decoder gives back what an encoder wrote, and what it wrote is writable and nested at most so deep. -/
structure Inverts (n : Nat) (d : Decoder α) (e : α → Json) : Prop where
  writable : ∀ x, (e x).Writable n
  decode : ∀ x, d (e x) = some x

theorem inverts_text : Inverts n text .text := ⟨.text, text_text⟩

theorem inverts_word : Inverts n word .word where
  writable x := .integer (by omega) (by have := x.toNat_lt; omega)
  decode := word_word

theorem inverts_byte : Inverts n byte fun b => .integer b.toNat where
  writable x := .integer (by omega) (by have := x.toNat_lt; omega)
  decode := byte_byte

theorem signed_toInt (i : Int64) : signed (.integer i.toInt) = some i := by
  have hlo := i.le_toInt
  have hhi := i.toInt_lt
  rw [signed, integerIn, if_pos (by omega), Option.map_some, Int64.ofInt_toInt]

theorem inverts_signed : Inverts n signed fun i => .integer i.toInt where
  writable i := .integer (by have := i.le_toInt; omega) (by have := i.toInt_lt; omega)
  decode := signed_toInt

theorem Inverts.list (h : Inverts n d e) : Inverts (n + 1) (list d) (.list e) where
  writable xs := .array fun j hj => by
    obtain ⟨x, -, rfl⟩ := List.mem_map.1 hj
    exact h.writable x
  decode xs := list_list d e xs h.decode

/-- An option is written as its value or as `null`, which no value is written as. -/
theorem Inverts.optional (h : Inverts n d e) (hnull : ∀ x, e x ≠ .null) : Inverts n (optional d) (.optional e) where
  writable
    | none => .null
    | some x => h.writable x
  decode
    | none => rfl
    | some x => by
      have hdecode := h.decode x
      have hne := hnull x
      rw [Json.optional]
      unfold Decoder.optional
      split
      · rename_i hx
        exact absurd hx hne
      · rw [hdecode, Option.map_some]

end Decoder

/-! ## Records -/

namespace Json

/-- A record whose names need no escape is read back if its values are. -/
theorem Writable.record {n : Nat} {ms : List (String × Json)} (names : List String) (hnames : ms.map (·.1) = names)
    (hplain : ∀ t ∈ names, NeedsNoEscape t) (hvalues : ∀ m ∈ ms, m.2.Writable n) : (record ms).Writable (n + 1) := by
  refine .object (fun k hk => ?_) fun k hk => ?_
  · obtain ⟨m, hm, rfl⟩ := List.mem_map.1 hk
    exact ⟨m.1, rfl, hplain m.1 (hnames ▸ List.mem_map_of_mem hm)⟩
  · obtain ⟨m, hm, rfl⟩ := List.mem_map.1 hk
    exact hvalues m hm

/-- The members of a record, as they stand in a document. -/
def plainMembers (ms : List (String × Json)) : List (MemberName × Json) :=
  ms.map fun (name, value) => (.plain name, value)

theorem membersNamed_plainMembers_cons (m : String × Json) (ms : List (String × Json)) (name : String) :
    membersNamed (plainMembers (m :: ms)) name =
      if m.1 = name then m.2 :: membersNamed (plainMembers ms) name else membersNamed (plainMembers ms) name := by
  by_cases h : m.1 = name <;> simp [membersNamed, plainMembers, MemberName.plain, h]

theorem membersNamed_eq_nil {ms : List (String × Json)} {name : String} (h : name ∉ ms.map (·.1)) :
    membersNamed (plainMembers ms) name = [] := by
  induction ms with
  | nil => rfl
  | cons m ms ih =>
    rw [List.map_cons, List.mem_cons, not_or] at h
    rw [membersNamed_plainMembers_cons, if_neg (Ne.symm h.1), ih h.2]

theorem membersNamed_of_mem {ms : List (String × Json)} (hnodup : (ms.map (·.1)).Nodup) {m : String × Json}
    (hm : m ∈ ms) : membersNamed (plainMembers ms) m.1 = [m.2] := by
  induction ms with
  | nil => cases hm
  | cons n ms ih =>
    rw [List.map_cons, List.nodup_cons] at hnodup
    rw [membersNamed_plainMembers_cons]
    cases hm with
    | head => rw [if_pos rfl, membersNamed_eq_nil hnodup.1]
    | tail _ hm =>
      have hne : n.1 ≠ m.1 := fun h => hnodup.1 (List.mem_map.2 ⟨m, hm, h.symm⟩)
      rw [if_neg hne, ih hnodup.2 hm]

/-- The values of a record stand in the order of their names. -/
theorem fields?_record {names : List String} {ms : List (String × Json)} (hnames : ms.map (·.1) = names)
    (hnodup : names.Nodup) : (record ms).fields? names = some ⟨ms.map fun m => some m.2, false⟩ := by
  subst hnames
  have htexts : (plainMembers ms).all (fun m => m.1.text.isSome) = true := by
    rw [plainMembers, List.all_map, List.all_eq_true]
    exact fun _ _ => rfl
  have honce : (ms.map (·.1)).all (fun name => decide ((membersNamed (plainMembers ms) name).length ≤ 1)) = true := by
    rw [List.all_map, List.all_eq_true]
    intro m hm
    rw [Function.comp_apply, membersNamed_of_mem hnodup hm]
    rfl
  have hvalues : (ms.map (·.1)).map (fun name => (membersNamed (plainMembers ms) name).head?) =
      ms.map fun m => some m.2 := by
    rw [List.map_map]
    refine List.map_congr_left fun m hm => ?_
    rw [Function.comp_apply, membersNamed_of_mem hnodup hm, List.head?_cons]
  rw [show record ms = .object (plainMembers ms) from rfl, fields?, if_pos ⟨htexts, honce⟩, hvalues]

end Json

namespace Decoder

variable {α : Type} {d : Decoder α} {e : α → Json} {n : Nat}

/-- A record is read back if each of its values is and the decoder builds it from them. -/
theorem inverts_record {ms : α → List (String × Json)} (names : List String) (hnames : ∀ x, (ms x).map (·.1) = names)
    (hnodup : names.Nodup) (hplain : ∀ t ∈ names, NeedsNoEscape t) (hvalues : ∀ x, ∀ m ∈ ms x, m.2.Writable n)
    (hdecode : ∀ x, (record (ms x)).fields? names = some ⟨(ms x).map fun m => some m.2, false⟩ →
      d (record (ms x)) = some x) :
    Inverts (n + 1) d fun x => record (ms x) where
  writable x := .record names (hnames x) hplain (hvalues x)
  decode x := hdecode x (fields?_record (hnames x) hnodup)

/-! ### Maps by address -/

theorem addressKey_toString (a : Address) : addressKey (.plain (toString a.toNat)) = some a := by
  have hend : EndsBefore [] := fun c hc => nomatch hc
  have hread := read?_toDigits false a.toNat hend
  rw [List.append_nil, if_neg Bool.false_ne_true, List.nil_append] at hread
  have htext : (toString a.toNat).toList = Nat.toDigits 10 a.toNat := Nat.toList_repr
  rw [addressKey, MemberName.plain, if_pos rfl, Option.bind_some, decimalWord, htext, hread]
  show (ofDigits false _).integer?.bind _ = _
  rw [integer?_ofDigits, if_neg Bool.false_ne_true, Option.bind_some]
  exact word_word a

theorem needsNoEscape_toString (n : Nat) : NeedsNoEscape (toString n) := by
  have htext : (toString n).toList = Nat.toDigits 10 n := Nat.toList_repr
  refine needsNoEscape_iff.2 fun c hc => ?_
  rw [htext] at hc
  have hdigit := Digits.isDigit_of_mem_toDigits c hc
  have hrange : 48 ≤ c.toNat ∧ c.toNat ≤ 57 := Char.isDigit_iff_toNat.1 hdigit
  refine ⟨?_, ?_, by omega⟩ <;> rintro rfl <;> cases hdigit

/-- A map is the map of its entries. -/
theorem ofList_toList (m : Std.ExtTreeMap Address α compare) : .ofList m.toList compare = m := by
  refine Std.ExtTreeMap.ext_getElem? fun k => ?_
  cases hk : m[k]? with
  | none =>
    refine Std.ExtTreeMap.getElem?_ofList_of_contains_eq_false ?_
    rw [← Bool.not_eq_true, List.contains_iff_mem, List.mem_map]
    rintro ⟨⟨k', x⟩, hmem, rfl⟩
    cases hk.symm.trans (Std.ExtTreeMap.mem_toList_iff_getElem?_eq_some.1 hmem)
  | some x =>
    exact Std.ExtTreeMap.getElem?_ofList_of_mem Std.ReflCmp.compare_self Std.ExtTreeMap.distinct_keys_toList
      (Std.ExtTreeMap.mem_toList_iff_getElem?_eq_some.2 hk)

theorem foldl_insert (xs : List (Address × α)) (m : Std.ExtTreeMap Address α compare) :
    xs.foldl (fun m (k, x) => m.insert k x) m = m.insertMany xs := by
  induction xs generalizing m with
  | nil => rfl
  | cons x xs ih => exact (ih _).trans Std.ExtTreeMap.insertMany_cons.symm

/-- Every address is the key of its own decimal name. -/
theorem members_mapToJson (h : Inverts n d e) (m : Std.ExtTreeMap Address α compare) :
    members addressKey d (Listing.mapToJson e m) = some m.toList := by
  rw [Listing.mapToJson, record, members, List.map_map]
  induction m.toList with
  | nil => rfl
  | cons x xs ih =>
    rw [List.map_cons, List.mapM_cons, ih]
    simp only [Function.comp_apply, addressKey_toString, h.decode]
    rfl

theorem Inverts.addressMap (h : Inverts n d e) : Inverts (n + 1) (addressMap d) (Listing.mapToJson e) where
  writable m := by
    refine .record _ rfl (fun t ht => ?_) fun n hn => ?_
    · rw [List.map_map] at ht
      obtain ⟨⟨a, x⟩, -, rfl⟩ := List.mem_map.1 ht
      exact needsNoEscape_toString _
    · obtain ⟨⟨a, x⟩, -, rfl⟩ := List.mem_map.1 hn
      exact h.writable x
  decode m := by
    rw [Decoder.addressMap, members_mapToJson h m, Option.map_some, foldl_insert,
      ← Std.ExtTreeMap.ofList_eq_insertMany_empty, ofList_toList]

end Decoder

/-! ## The types of a listing -/

open Decoder

variable {n : Nat}

theorem Arch.inverts : Inverts n Arch.ofJson? Arch.toJson := ⟨fun _ => .text _, Arch.ofJson?_toJson⟩

namespace Segment

theorem inverts_data : Inverts (n + 1) (fun j => (list byte j).map List.toArray)
    fun d : Array UInt8 => .array (d.toList.map fun b => .integer b.toNat) where
  writable d := inverts_byte.list.writable d.toList
  decode d := by
    have hlist := (inverts_byte (n := n)).list.decode d.toList
    rw [Json.list] at hlist
    rw [hlist, Option.map_some, Array.toArray_toList]

theorem inverts : Inverts (n + 2) ofJson? toJson := by
  have hdata := (inverts_data (n := n)).optional fun _ => Json.noConfusion
  refine inverts_record ["name", "start", "size", "data"] (fun _ => rfl) (by decide) (by decide)
    (fun s => ?_) fun s hs => ?_
  · simp [inverts_text.writable, inverts_word.writable, hdata.writable]
  · rw [ofJson?, hs]
    simp [required, withDefault, text_text, word_word, hdata.decode]

end Segment

namespace MemoryReference

theorem inverts : Inverts (n + 1) ofJson? toJson := by
  have hname := (inverts_text (n := n)).optional fun _ => Json.noConfusion
  refine inverts_record ["segment", "base", "index", "scale", "displacement"] (fun _ => rfl) (by decide)
    (by decide) (fun m => ?_) fun m hm => ?_
  · simp [hname.writable, inverts_byte.writable, inverts_signed.writable]
  · rw [ofJson?, hm]
    simp [withDefault, hname.decode, byte_byte, signed_toInt]

end MemoryReference

namespace OperandKind

theorem inverts : Inverts (n + 2) ofJson? toJson where
  writable k := by
    cases k with
    | register name => exact .record ["register"] rfl (by decide) (by simp [inverts_text.writable])
    | immediate value => exact .record ["immediate"] rfl (by decide) (by simp [inverts_word.writable])
    | memory m => exact .record ["memory"] rfl (by decide) (by simp [MemoryReference.inverts.writable])
    | near target => exact .record ["near"] rfl (by decide) (by simp [inverts_word.writable])
  decode k := by
    cases k with
    | register name => rfl
    | immediate value => simp [toJson, record, MemberName.plain, ofJson?, word_word]
    | memory m => simp [toJson, record, MemberName.plain, ofJson?, (MemoryReference.inverts (n := n)).decode]
    | near target => simp [toJson, record, MemberName.plain, ofJson?, word_word]

end OperandKind

namespace Operand

theorem inverts : Inverts (n + 3) ofJson? toJson := by
  refine inverts_record ["text", "size", "kind"] (fun _ => rfl) (by decide) (by decide)
    (fun o => ?_) fun o ho => ?_
  · simp [inverts_text.writable, inverts_word.writable, OperandKind.inverts.writable]
  · rw [ofJson?, ho]
    simp [required, text_text, word_word, (OperandKind.inverts (n := n)).decode]

end Operand

namespace Instruction

theorem inverts : Inverts (n + 5) ofJson? toJson := by
  have hrepetition := (inverts_text (n := n + 4)).optional fun _ => Json.noConfusion
  have hoperands := (Operand.inverts (n := n)).list
  refine inverts_record ["address", "mnemonic", "length", "prefix", "operands"] (fun _ => rfl) (by decide)
    (by decide) (fun i => ?_) fun i hi => ?_
  · simp [inverts_text.writable, inverts_word.writable, hrepetition.writable, hoperands.writable]
  · rw [ofJson?, hi]
    simp [required, withDefault, text_text, word_word, hrepetition.decode, hoperands.decode]

end Instruction

namespace FrameMember

theorem inverts : Inverts (n + 1) ofJson? toJson := by
  refine inverts_record ["name", "offset", "size"] (fun _ => rfl) (by decide) (by decide)
    (fun m => ?_) fun m hm => ?_
  · simp [inverts_text.writable, inverts_word.writable, inverts_signed.writable]
  · rw [ofJson?, hm]
    simp [required, text_text, word_word, signed_toInt]

end FrameMember

namespace BlockRecord

theorem inverts : Inverts (n + 2) ofJson? toJson := by
  have haddresses := (inverts_word (n := n)).list
  refine inverts_record ["start", "end", "heads", "succs", "preds"] (fun _ => rfl) (by decide) (by decide)
    (fun b => ?_) fun b hb => ?_
  · simp [inverts_word.writable, haddresses.writable]
  · rw [ofJson?, hb]
    simp [required, withDefault, word_word, haddresses.decode]

end BlockRecord

theorem Convention.inverts : Inverts n Convention.ofJson? Convention.toJson :=
  ⟨fun _ => .text _, Convention.ofLabel?_label⟩

namespace Declaration

theorem inverts : Inverts (n + 1) ofJson? toJson := by
  refine inverts_record ["type", "name"] (fun _ => rfl) (by decide) (by decide) (fun d => ?_) fun d hd => ?_
  · simp [inverts_text.writable]
  · rw [ofJson?, hd]
    simp [required, text_text]

end Declaration

namespace Prototype

theorem inverts : Inverts (n + 3) ofJson? toJson := by
  have hconvention := (Convention.inverts (n := n + 2)).optional fun _ => Json.noConfusion
  have hargs := (Declaration.inverts (n := n)).list
  refine inverts_record ["name", "return_type", "convention", "args"] (fun _ => rfl) (by decide) (by decide)
    (fun p => ?_) fun p hp => ?_
  · simp [inverts_text.writable, hconvention.writable, hargs.writable]
  · rw [ofJson?, hp]
    simp [required, withDefault, text_text, hconvention.decode, hargs.decode]

end Prototype

namespace SymbolRecord

theorem inverts : Inverts (n + 1) ofJson? toJson := by
  have hsize := (inverts_word (n := n)).optional fun _ => Json.noConfusion
  refine inverts_record ["name", "size"] (fun _ => rfl) (by decide) (by decide) (fun s => ?_) fun s hs => ?_
  · simp [inverts_text.writable, hsize.writable]
  · rw [ofJson?, hs]
    simp [required, withDefault, text_text, hsize.decode]

end SymbolRecord

namespace FunctionRecord

/-- What is written and not too deep can be kept until its record is read. -/
theorem isKeepable_of_writable {j : Json} (h : j.Writable n) (hn : n ≤ maxMemberDepth) (name : String) :
    isKeepable (.plain name, j) = true := by
  simp [isKeepable, h.isRepresentable, Nat.le_trans h.depth_le hn]

theorem inverts : Inverts (n + 4) ofJson? toJson := by
  have hframe := (FrameMember.inverts (n := n + 1)).list
  have hblocks := (BlockRecord.inverts (n := n)).list
  have hprototype := (Prototype.inverts (n := n)).optional fun _ => Json.noConfusion
  refine inverts_record ["entry", "end", "frame", "blocks", "prototype"] (fun _ => rfl) (by decide) (by decide)
    (fun f => ?_) fun f hf => ?_
  · simp [inverts_word.writable, hframe.writable, hblocks.writable, hprototype.writable]
  · have hkeepWord : ∀ (name : String) (x : UInt64), isKeepable (.plain name, .word x) = true := fun name x =>
      isKeepable_of_writable ((inverts_word (n := 0)).writable x) (Nat.zero_le _) name
    have hkeepFrame : isKeepable (.plain "frame", .list FrameMember.toJson f.frame) = true :=
      isKeepable_of_writable ((FrameMember.inverts (n := 0)).list.writable f.frame) (by decide) "frame"
    have hkeepBlocks : ∀ j, isKeepable (.plain "blocks", j) = true := fun _ => rfl
    have hkeepPrototype : ∀ j, isKeepable (.plain "prototype", j) = true := fun _ => rfl
    rw [record] at hf ⊢
    rw [ofJson?, hf]
    simp [required, withDefault, hkeepWord, hkeepFrame, hkeepBlocks, hkeepPrototype, word_word, hframe.decode,
      hblocks.decode, hprototype.decode]

end FunctionRecord

namespace Listing

theorem inverts : Inverts (n + 7) ofJson? toJson := by
  have hsegments := (Segment.inverts (n := n + 3)).list
  have hinstructions := (Instruction.inverts (n := n)).addressMap
  have hfunctions := (FunctionRecord.inverts (n := n + 1)).list
  have hsymbols := (SymbolRecord.inverts (n := n + 4)).addressMap
  refine inverts_record ["arch", "segments", "instructions", "functions", "names"] (fun _ => rfl) (by decide)
    (by decide) (fun l => ?_) fun l hl => ?_
  · simp [Arch.inverts.writable, hsegments.writable, hinstructions.writable, hfunctions.writable, hsymbols.writable]
  · rw [ofJson?, hl]
    simp [withDefault, Arch.ofJson?_toJson, hsegments.decode, hinstructions.decode, hfunctions.decode, hsymbols.decode]

/-- Every listing is read back from its export, whatever prints it and reads it faithfully. -/
theorem parseWith?_print {print : Json → String} {read : String → Option Json} (h : Json.Faithful print read)
    (l : Listing) : parseWith? read (print l.toJson) = some l := by
  have hwritable : l.toJson.Writable maxDepth := (inverts (n := 120)).writable l
  have hdecode : ofJson? l.toJson = some l := (inverts (n := 0)).decode l
  rw [parseWith?, h _ hwritable, Option.bind_some, hdecode]

/-- A slot below the frame's base, a reference with a negative displacement and a name of two lines. -/
theorem parseWith?_render :
    let i := Instruction.of 0x1000 "mov" 3 [.ofRegister "eax" 4, .ofMemory "[ebp-8]" 4 (some "ebp") (-8)]
    let l := ((((Listing.empty .x86).addFunction 0x1000 0x1010).addFrameMember 0x1000 ⟨"buf", -8, 4⟩).addInstruction
      i).addSymbol 0xFFFFFFFFFFFFFFFF ⟨"first\nsecond", none⟩
    Json.Faithful Json.render Json.parse? ∧ parseWith? Json.parse? (Json.render l.toJson) = some l := by
  intro i l
  exact ⟨Json.faithful_render, parseWith?_print Json.faithful_render l⟩

end Listing
end PathReplay
