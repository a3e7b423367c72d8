import PathReplay.Proofs.Machine.Allocations
import PathReplay.Proofs.Machine.Strings

/-!
# String functions

* `Memory.Wrote`, `wrote_write` : what a write leaves of memory;
* `readString_writeString` : the string that a text begins which is written in two parts;
* `unitOf_find?` : which of the emulated functions work on wide strings;
* `duplicate_spec`, `call_string` : the string functions do what they are specified to do, on strings that overlap too.
-/

namespace PathReplay

/-- Memory holds `data` from an address on, and elsewhere what it held before; the heap has not changed. -/
structure Memory.Wrote (a : Address) (data : Bytes) (m m' : Memory) : Prop where
  byte : ∀ x, m'.byte x = (data[(x - a).toNat]?).getD (m.byte x)
  heap : m'.heap = m.heap

theorem Memory.wrote_write (m : Memory) (a : Address) {data : Bytes} (h : data.length ≤ 2 ^ 64) :
    Wrote a data m (m.write a data) := ⟨m.byte_write a data h, m.heap_write a data⟩

namespace Machine

variable {m : Machine} {p : Address} {unit : Nat} {a b : Bytes}

/-- A text of which the first part was there is a string once the rest and a nul are written after it. -/
theorem readString_writeString (hunit : 0 < unit) (ha : unit ∣ a.length) (ha' : LacksNul unit a)
    (hread : m.memory.read p a.length = a) (hb : unit ∣ b.length) (hb' : LacksNul unit b)
    (hfits : a.length + (b.length + unit) ≤ 2 ^ 64) :
    (m.writeString (p + UInt64.ofNat a.length) b unit).readString p unit = (a ++ b).take (m.stringLimit unit) := by
  have hlength : (b ++ List.replicate unit (0 : UInt8)).length = b.length + unit := by
    rw [List.length_append, List.length_replicate]
  have hfirst : (m.memory.write (p + UInt64.ofNat a.length) (b ++ List.replicate unit 0)).read p a.length = a := by
    conv_rhs => rw [← hread]
    refine Memory.read_congr fun i hi => m.memory.byte_write_of_le ?_
    have hdistance : (p + UInt64.ofNat i - p).toNat = i := toNat_add_ofNat_sub p (by omega)
    rw [toNat_sub_add_ofNat _ p (by omega), hdistance, if_neg (by omega)]
    omega
  have hrest : (m.memory.write (p + UInt64.ofNat a.length) (b ++ List.replicate unit 0)).read
      (p + UInt64.ofNat a.length) (b.length + unit) = b ++ List.replicate unit 0 :=
    hlength ▸ m.memory.read_write _ _ (by omega)
  refine readString_of_read hunit ?_ (ha'.append ha hb') ?_
  · rw [List.length_append]
    exact Nat.dvd_add ha hb
  · show (m.memory.write _ _).read p _ = _
    rw [List.length_append, Nat.add_assoc, Memory.read_add, hfirst, hrest, List.append_assoc]

theorem readString_writeString_self (hunit : 0 < unit) (hb : unit ∣ b.length) (hb' : LacksNul unit b)
    (hfits : b.length + unit ≤ 2 ^ 64) :
    (m.writeString p b unit).readString p unit = b.take (m.stringLimit unit) := by
  have hstring := readString_writeString (m := m) (p := p) (a := []) hunit (Nat.dvd_zero unit) (lacksNul_nil hunit)
    (m.memory.read_zero p) hb hb' (by rw [List.length_nil]; omega)
  rwa [List.length_nil, List.nil_append, show p + UInt64.ofNat 0 = p from UInt64.add_zero p] at hstring

/-- The first units of a string. -/
theorem readUnits_eq (m : Machine) (p : Address) (unit : Nat) (n : UInt64) :
    m.readUnits p unit n = (m.readString p unit).take (n.toNat * unit) := rfl

theorem dvd_length_readUnits (hunit : 0 < unit) (m : Machine) (p : Address) (n : UInt64) :
    unit ∣ (m.readUnits p unit n).length := by
  rw [readUnits_eq, List.length_take]
  rcases Nat.le_total (n.toNat * unit) (m.readString p unit).length with hle | hle
  · rw [Nat.min_eq_left hle]
    exact Nat.dvd_mul_left unit _
  · rw [Nat.min_eq_right hle]
    exact (m.readString_longest hunit p).aligned

end Machine

namespace LibC

variable {name f : String} {e : Entry} {m : Machine}

/-- The emulated functions whose strings are wide. -/
def wideNames : List String :=
  ["wcscat", "wcsncat", "wcscpy", "wcsncpy", "wcsdup", "wcslen", "lstrcatw", "lstrcpyw", "lstrlenw"]

/-- An emulated function is given the name that it was called by without its decorations. -/
theorem unitOf_find? (h : find? f = some e) : unitOf (undecorated f) = if bareName f ∈ wideNames then 2 else 1 := by
  have hcatalogue : ∀ entry ∈ catalogue, (if entry.1.toList.take 3 = ['w', 'c', 's'] ∨
      entry.1.toList.take 4 = ['l', 's', 't', 'r'] ∧ entry.1.toList.getLast? = some 'w' then 2 else 1) =
      if entry.1 ∈ wideNames then 2 else 1 := by decide +kernel
  obtain ⟨front, back, hlist, -⟩ := List.lookup_eq_some_iff.1 h
  exact hcatalogue (bareName f, e) (by rw [hlist]; simp)

theorem unitOf_eq (name : String) : unitOf name = 1 ∨ unitOf name = 2 := by
  unfold unitOf
  dsimp only
  split
  · exact .inr rfl
  · exact .inl rfl

theorem padded_eq (data : Bytes) (n : Nat) : padded data n = (data ++ List.replicate n 0).take n := by
  rw [padded, List.take_append, List.take_replicate, Nat.min_eq_left (Nat.sub_le n data.length)]

section Texts

variable {unit : Nat} {text : Bytes} (hunit : 0 < unit) (haligned : unit ∣ text.length) (hlacks : LacksNul unit text)
  (hle : text.length ≤ m.stringLimit unit) (hfits : m.stringLimit unit + (m.stringLimit unit + unit) < 2 ^ 64)

include hunit haligned hlacks hle hfits

/-- A text and a nul are written. -/
theorem writeString_spec (a : Address) :
    (m.writeString a text unit).readString a unit = text ∧
      Memory.Wrote a (text ++ List.replicate unit 0) m.memory (m.writeString a text unit).memory := by
  refine ⟨(Machine.readString_writeString_self hunit haligned hlacks (by omega)).trans (List.take_of_length_le hle), ?_⟩
  exact m.memory.wrote_write a (by rw [List.length_append, List.length_replicate]; omega)

/-- A text and a nul are written where a string ends. -/
theorem writeString_stringEnd_spec (dst : Address) :
    (m.writeString (stringEnd m dst unit) text unit).readString dst unit =
        (m.readString dst unit ++ text).take (m.stringLimit unit) ∧
      Memory.Wrote (stringEnd m dst unit) (text ++ List.replicate unit 0) m.memory
        (m.writeString (stringEnd m dst unit) text unit).memory := by
  have hdst := m.readString_longest hunit dst
  have hdst_le := Machine.length_readString_le hunit m dst
  refine ⟨Machine.readString_writeString hunit hdst.aligned hdst.lacks (Machine.read_length_readString hunit m dst)
    haligned hlacks (by omega), ?_⟩
  exact m.memory.wrote_write _ (by rw [List.length_append, List.length_replicate]; omega)

/-- A copy is allotted as many bytes as it has, and is the string there. -/
theorem duplicate_spec :
    ∃ size m', duplicate m text unit = ((m.memory.alloc size).1, m') ∧ size.toNat = text.length + unit ∧
      m'.memory.heap.sizeOf? (m.memory.alloc size).1 = some size ∧
      m'.readString (m.memory.alloc size).1 unit = text ∧
      Memory.Wrote (m.memory.alloc size).1 (text ++ List.replicate unit 0) (m.memory.alloc size).2 m'.memory := by
  let size := UInt64.ofNat (text.length + unit)
  have hsize : size.toNat = text.length + unit := by rw [UInt64.toNat_ofNat', Nat.mod_eq_of_lt (by omega)]
  have hpos : size ≠ 0 := fun h => by
    rw [h] at hsize
    exact absurd hsize (Nat.ne_of_lt (Nat.add_pos_right _ hunit))
  have hwrote : Memory.Wrote (m.memory.alloc size).1 (text ++ List.replicate unit 0) (m.memory.alloc size).2
      (duplicate m text unit).2.memory :=
    Memory.wrote_write _ _ (by rw [List.length_append, List.length_replicate]; omega)
  have hlive : (m.memory.heap.step (.alloc size)).live[m.memory.heap.place (.alloc size)]? = some size :=
    m.memory.heap.live_place rfl hpos
  refine ⟨size, (duplicate m text unit).2, rfl, hsize, ?_, ?_, hwrote⟩
  · rw [hwrote.heap]
    exact hlive
  · refine (Machine.readString_writeString_self (m := (m.alloc size).2) hunit haligned hlacks (by omega)).trans ?_
    exact List.take_of_length_le hle

end Texts

theorem bounded_saturatingMul {unit : Nat} (hunit : unit ≤ 2) (m : Memory) (n : UInt64) :
    m.bounded (Word.saturatingMul n (UInt64.ofNat unit)) = min (n.toNat * unit) m.maxTransfer.toNat := by
  have hmax := m.maxTransfer.toNat_lt
  rw [Memory.bounded, UInt64.toNat_min, Word.toNat_saturatingMul, UInt64.toNat_ofNat',
    Nat.mod_eq_of_lt (by omega)]
  simp only [UInt64.size]
  omega

/-- The string functions, called by any name that says what a unit is, do what they are specified to do, wherever the
strings lie and whether or not they overlap, as long as strings are not searched further than `2 ^ 32` bytes. The
string at an address is the longest run of units there, as far as it is searched, none of which is all zero. -/
theorem call_string (name : String) (m : Machine) (hlimit : m.stringLimit (unitOf name) ≤ 2 ^ 32)
    (dst src n : UInt64) :
    let unit := unitOf name
    let limit := m.stringLimit unit
    let nul : Bytes := List.replicate unit 0
    let string : Machine → Address → Bytes := fun q p => q.readString p unit
    let first := (string m src).take (n.toNat * unit)
    (∀ f e, find? f = some e → undecorated f = name → unit = if bareName f ∈ wideNames then 2 else 1) ∧
    (∀ q p, LongestText unit (q.memory.read p (q.stringLimit unit)) (string q p)) ∧
    (∃ m', Routine.strcpy.call name [dst, src] m = (dst, m') ∧ string m' dst = string m src ∧
      Memory.Wrote dst (string m src ++ nul) m.memory m'.memory) ∧
    (∃ m', Routine.strcat.call name [dst, src] m = (dst, m') ∧
      string m' dst = (string m dst ++ string m src).take limit ∧
      Memory.Wrote (dst + UInt64.ofNat (string m dst).length) (string m src ++ nul) m.memory m'.memory) ∧
    (∃ m', Routine.strncat.call name [dst, src, n] m = (dst, m') ∧
      string m' dst = (string m dst ++ first).take limit ∧
      Memory.Wrote (dst + UInt64.ofNat (string m dst).length) (first ++ nul) m.memory m'.memory) ∧
    (∃ m' data, Routine.strncpy.call name [dst, src, n] m = (dst, m') ∧
      data.length = min (n.toNat * unit) m.memory.maxTransfer.toNat ∧
      data = (first ++ List.replicate data.length 0).take data.length ∧
      Memory.Wrote dst data m.memory m'.memory) ∧
    Routine.strlen.call name [src] m = (UInt64.ofNat ((string m src).length / unit), m) ∧
    (∃ size m', Routine.strdup.call name [src] m = ((m.memory.alloc size).1, m') ∧
      size.toNat = (string m src).length + unit ∧ m'.memory.heap.sizeOf? (m.memory.alloc size).1 = some size ∧
      string m' (m.memory.alloc size).1 = string m src ∧
      Memory.Wrote (m.memory.alloc size).1 (string m src ++ nul) (m.memory.alloc size).2 m'.memory) ∧
    ∃ size m', Routine.strndup.call name [src, n] m = ((m.memory.alloc size).1, m') ∧
      size.toNat = first.length + unit ∧ m'.memory.heap.sizeOf? (m.memory.alloc size).1 = some size ∧
      string m' (m.memory.alloc size).1 = first ∧
      Memory.Wrote (m.memory.alloc size).1 (first ++ nul) (m.memory.alloc size).2 m'.memory := by
  intro unit limit nul string first
  have hunit : 0 < unit ∧ unit ≤ 2 := by
    rcases unitOf_eq name with h | h <;> rw [show unit = unitOf name from rfl, h] <;> decide
  have hlimit : limit ≤ 2 ^ 32 := hlimit
  have hfits : limit + (limit + unit) < 2 ^ 64 := by omega
  have hsrc := m.readString_longest hunit.1 src
  have hle : (string m src).length ≤ limit := Machine.length_readString_le hunit.1 m src
  have haligned : unit ∣ first.length := m.dvd_length_readUnits hunit.1 src n
  have hlacks : LacksNul unit first := hsrc.lacks.take _
  have hfirst : first.length ≤ limit := Nat.le_trans (List.length_take_le' _ _) hle
  obtain ⟨hcpy, hcpy'⟩ := writeString_spec hunit.1 hsrc.aligned hsrc.lacks hle hfits dst
  obtain ⟨hcat, hcat'⟩ := writeString_stringEnd_spec hunit.1 hsrc.aligned hsrc.lacks hle hfits dst
  obtain ⟨hncat, hncat'⟩ := writeString_stringEnd_spec hunit.1 haligned hlacks hfirst hfits dst
  let length := m.memory.bounded (Word.saturatingMul n (UInt64.ofNat unit))
  have hpadded : (padded first length).length = length := length_padded first length
  refine ⟨fun f e he hname => ?_, fun q p => q.readString_longest hunit.1 p,
    ⟨_, rfl, hcpy, hcpy'⟩, ⟨_, rfl, hcat, hcat'⟩, ⟨_, rfl, hncat, hncat'⟩,
    ⟨_, padded first length, rfl, ?_, ?_, ?_⟩, rfl,
    duplicate_spec hunit.1 hsrc.aligned hsrc.lacks hle hfits, duplicate_spec hunit.1 haligned hlacks hfirst hfits⟩
  · subst hname
    exact unitOf_find? he
  · exact hpadded.trans (bounded_saturatingMul hunit.2 m.memory n)
  · rw [hpadded]
    exact padded_eq first length
  · refine m.memory.wrote_write dst ?_
    rw [hpadded]
    exact Nat.le_of_lt (UInt64.toNat_lt _)

/-- A string that is appended to itself is doubled, although its own terminator is overwritten. -/
theorem call_strcat_self :
    let data : Segment := ⟨".data", 0x2000, 8, some #[0x61, 0x62]⟩
    let m := Machine.fresh { Listing.empty .x86 with segments := [data] } { maxStringLength := 6 }
    ∃ m', Routine.strcat.call "strcat" [0x2000, 0x2000] m = (0x2000, m') ∧
      m'.readString 0x2000 1 = [0x61, 0x62, 0x61, 0x62] := by
  intro data m
  have hunit : unitOf "strcat" = 1 := by decide +kernel
  obtain ⟨-, -, -, ⟨m', hcall, hstring, -⟩, -⟩ := call_string "strcat" m (by decide +kernel) 0x2000 0x2000 0
  dsimp only at hstring
  rw [hunit] at hstring
  exact ⟨m', hcall, hstring.trans (by decide +kernel)⟩

end LibC
end PathReplay
