import PathReplay.Proofs.Memory.Agreement

/-!
# Copies byte by byte

* `write_cons`, `write_append` : a write is one write after another of the parts of its data;
* `copyForward` : memory after a copy one byte at a time, lowest first;
* `byte_copyForward` : such a copy repeats what lies before its target, where that begins within its source;
* `copyForward_eq_write` : elsewhere it is one write of all that was read.
-/

namespace PathReplay.Memory

/-! ## Writes in parts -/

/-- A write into a page is one write after another. -/
theorem writeChunk_cons (m : Memory) (a : Address) (b : UInt8) (rest : Bytes) (h : 1 < pageRoom a) :
    m.writeChunk a (b :: rest) = (m.writeChunk a [b]).writeChunk (a + 1) rest := by
  have hbase : pageBase (a + 1) = pageBase a := pageBase_add (i := 1) h
  have hoffset : pageOffset (a + 1) = pageOffset a + 1 := pageOffset_add (i := 1) h
  refine congrArg (fun pages => ({ m with pages } : Memory)) (Std.ExtTreeMap.ext_getElem? fun base => ?_)
  rw [hbase, hoffset]
  show _ = ((m.pages.alter _ _).alter _ _)[base]?
  simp only [Std.ExtTreeMap.getElem?_alter, Std.LawfulEqCmp.compare_eq_iff_eq]
  split
  · cases m.pages[pageBase a]? <;> simp only [Page.put, if_true]
  · rfl

/-- A write is one write after another. -/
theorem write_cons (m : Memory) (a : Address) (b : UInt8) (rest : Bytes) :
    m.write a (b :: rest) = (m.write a [b]).write (a + 1) rest := by
  have hpos := pageRoom_pos a
  have hsingle : m.write a [b] = m.writeChunk a [b] := by
    rw [write, dif_neg (List.cons_ne_nil _ _)]
    dsimp only
    rw [List.take_of_length_le hpos, List.drop_eq_nil_of_le hpos, write_nil]
  rcases rest with _ | ⟨c, rest⟩
  · rw [write_nil]
  · rw [hsingle, write, dif_neg (List.cons_ne_nil _ _)]
    dsimp only
    obtain ⟨k, hk⟩ : ∃ k, pageRoom a = k + 1 := ⟨pageRoom a - 1, by omega⟩
    rw [hk, List.take_succ_cons, List.drop_succ_cons]
    rcases Nat.eq_zero_or_pos k with rfl | hlt
    · rfl
    · -- the rest begins in the same page
      have hoffset : pageOffset (a + 1) = pageOffset a + 1 := pageOffset_add (i := 1) (by omega)
      have hnext : pageRoom (a + 1) = k := by
        simp only [pageRoom] at hk ⊢
        omega
      have haddress : a + UInt64.ofNat (k + 1) = a + 1 + UInt64.ofNat k := by
        rw [show a + 1 = a + UInt64.ofNat 1 from rfl, add_ofNat_add, Nat.add_comm]
      rw [haddress, m.writeChunk_cons a b _ (by omega), write.eq_def _ _ (c :: rest), dif_neg (List.cons_ne_nil _ _),
        hnext]

theorem write_append (m : Memory) (a : Address) (data data' : Bytes) :
    m.write a (data ++ data') = (m.write a data).write (a + UInt64.ofNat data.length) data' := by
  induction data generalizing m a with
  | nil => rw [List.nil_append, write_nil, List.length_nil, show a + UInt64.ofNat 0 = a from UInt64.add_zero a]
  | cons b rest ih =>
    rw [List.cons_append, write_cons, ih, ← write_cons, List.length_cons, Nat.add_comm, ← add_ofNat_add]
    rfl

theorem read_succ_last (m : Memory) (a : Address) (n : Nat) :
    m.read a (n + 1) = m.read a n ++ [m.byte (a + UInt64.ofNat n)] := by
  rw [read_eq_map, List.range_succ, List.map_append, ← read_eq_map]
  rfl

/-! ## Copies -/

/-- Memory after `n` bytes were copied one at a time, lowest first. -/
def copyForward (m : Memory) (s d : Address) : Nat → Memory
  | 0 => m
  | n + 1 =>
    let m' := m.copyForward s d n
    m'.write (d + UInt64.ofNat n) (m'.read (s + UInt64.ofNat n) 1)

/-- How far into the source the byte lies that is copied `i` bytes into the target. What was copied is copied again. -/
def copyOffset (s d : Address) (i : Nat) : Nat := if s.toNat < d.toNat then i % (d.toNat - s.toNat) else i

variable {m : Memory} {s d : Address} {n : Nat}

theorem copyOffset_of_lt {i : Nat} (h : i < n) :
    copyOffset s d i = if s.toNat < d.toNat ∧ d.toNat < s.toNat + n then i % (d.toNat - s.toNat) else i := by
  rw [copyOffset]
  by_cases hlt : s.toNat < d.toNat
  · by_cases hwithin : d.toNat < s.toNat + n
    · rw [if_pos hlt, if_pos ⟨hlt, hwithin⟩]
    · rw [if_pos hlt, if_neg fun h => hwithin h.2, Nat.mod_eq_of_lt (by omega)]
  · rw [if_neg hlt, if_neg fun h => hlt h.1]

/-- The byte that a copy reads was copied from where the byte that it writes is, or it is none that was copied. -/
theorem copyOffset_step (hs : s.toNat + n < 2 ^ 64) (hd : d.toNat + n < 2 ^ 64) :
    if (s + UInt64.ofNat n - d).toNat < n then
      copyOffset s d (s + UInt64.ofNat n - d).toNat = copyOffset s d n
    else copyOffset s d n = n := by
  have hx : (s + UInt64.ofNat n).toNat = s.toNat + n := toNat_add_of_lt hs
  rw [UInt64.toNat_sub, hx, copyOffset, copyOffset]
  by_cases hlt : s.toNat < d.toNat
  · rw [if_pos hlt, if_pos hlt]
    by_cases hle : d.toNat ≤ s.toNat + n
    · have hmod : (2 ^ 64 - d.toNat + (s.toNat + n)) % 2 ^ 64 = n - (d.toNat - s.toNat) := by omega
      rw [hmod, if_pos (by omega)]
      exact (Nat.mod_eq_sub_mod (by omega)).symm
    · rw [if_neg (by omega), Nat.mod_eq_of_lt (by omega)]
  · rw [if_neg (by omega), if_neg hlt]

/-- The target of a copy byte by byte repeats what lies between the source's beginning and its own, if it begins after
the source. -/
theorem byte_copyForward (hs : s.toNat + n ≤ 2 ^ 64) (hd : d.toNat + n ≤ 2 ^ 64) (x : Address) :
    (m.copyForward s d n).byte x =
      if (x - d).toNat < n then m.byte (s + UInt64.ofNat (copyOffset s d (x - d).toNat)) else m.byte x := by
  induction n generalizing x with
  | zero => rfl
  | succ n ih =>
    have ih := ih (by omega) (by omega)
    have hn : n < 2 ^ 64 := by omega
    have hx := (x - d).toNat_lt
    have hone : ∀ {b : UInt8}, [b].length ≤ 2 ^ 64 := Nat.succ_le_of_lt (Nat.two_pow_pos _)
    rw [copyForward, read_one, byte_write _ _ _ hone, toNat_sub_add_ofNat x d hn]
    rcases Nat.lt_trichotomy (x - d).toNat n with hlt | heq | hgt
    · rw [if_neg (by omega), List.getElem?_eq_none (by rw [List.length_singleton]; omega), Option.getD_none, ih,
        if_pos hlt, if_pos (by omega)]
    · rw [if_pos (by omega), heq, Nat.sub_self, List.getElem?_cons_zero, Option.getD_some, ih,
        if_pos (Nat.lt_succ_self n)]
      have hstep := copyOffset_step (s := s) (d := d) (n := n) (by omega) (by omega)
      split at hstep
      · rename_i hcopied
        rw [if_pos hcopied, hstep]
      · rename_i hnew
        rw [if_neg hnew, hstep]
    · rw [if_pos (by omega), List.getElem?_eq_none (by rw [List.length_singleton]; omega), Option.getD_none, ih,
        if_neg (by omega), if_neg (by omega)]

/-- A copy byte by byte is one write of all that was read, unless it writes what it has yet to read. -/
theorem copyForward_eq_write (hs : s.toNat + n ≤ 2 ^ 64) (hd : d.toNat + n ≤ 2 ^ 64)
    (h : d.toNat ≤ s.toNat ∨ s.toNat + n ≤ d.toNat) : m.copyForward s d n = m.write d (m.read s n) := by
  induction n with
  | zero => rw [read_zero, write_nil, copyForward]
  | succ n ih =>
    have hunread : ¬ (s + UInt64.ofNat n - d).toNat < n := by
      rw [UInt64.toNat_sub, toNat_add_of_lt (by omega)]
      omega
    rw [copyForward, read_one, read_succ_last, write_append, length_read,
      byte_copyForward (by omega) (by omega), if_neg hunread, ih (by omega) (by omega) (by omega)]

end PathReplay.Memory
