import PathReplay.Proofs.Memory.Contents
import PathReplay.Proofs.Memory.HeapSafety

/-!
# Blocks that are given another size

* `Heap.Below` : live blocks begin below the next free place; `Heap.Below.run` : they do after every run;
* `Heap.Below.getElem?_realloc_of_ne`, `Heap.getElem?_realloc_self` : which blocks are live after a request for
  another size; `Heap.Below.realloc_moved`, `Heap.realloc_stayed` : where the block is;
* `Reached.exists_heap_run` : the heap in memory that a program can have is one after a run of requests;
* `read_realloc_of_moved`, `byte_realloc_of_moved` : a block that moves takes its contents along, and nothing changes
  outside its new place; `byte_realloc_of_stayed` : any other request changes no byte;
* `realloc_preserves` : no request loses contents, of the block itself or of another one.
-/

namespace PathReplay

namespace Heap

variable {h : Heap} {a : Address} {size : UInt64}

/-! ## Blocks below the next free place -/

/-- Live blocks begin below the next free place, unless that has come to the last address. -/
def Below (h : Heap) : Prop := ∀ a s, h.live[a]? = some s → a < h.next ∨ h.next = lastAddress

theorem below_empty (base : Address) (slack : UInt64) : Below (empty base slack) := by
  intro a s ha
  simp [empty] at ha

theorem le_lastAddress (a : Address) : a ≤ lastAddress := by
  have := a.toNat_lt
  rw [UInt64.le_iff_toNat_le, toNat_lastAddress]
  omega

theorem below_of_le {next next' : Address} (hle : next ≤ next') (h : a < next ∨ next = lastAddress) :
    a < next' ∨ next' = lastAddress := by
  rcases h with hlt | rfl
  · exact .inl (UInt64.lt_of_lt_of_le hlt hle)
  · exact .inr (UInt64.le_antisymm (le_lastAddress next') hle)

theorem below_after (h : Heap) (a : Address) (hsize : size ≠ 0) : a < h.after a size ∨ h.after a size = lastAddress := by
  have hpos : size.toNat ≠ 0 := fun h0 => hsize (UInt64.toNat_inj.1 h0)
  have ha := a.toNat_lt
  have hafter := h.toNat_after a size
  rw [UInt64.lt_iff_toNat_lt, ← UInt64.toNat_inj, toNat_lastAddress]
  omega

theorem Below.free (hb : Below h) (a : Address) : Below (h.free a) := fun b s hs => hb b s (live_erase hs)

theorem Below.insert (hb : Below h) {next : Address} (hle : h.next ≤ next) (ha : a < next ∨ next = lastAddress) :
    Below { h with live := h.live.insert a size, next } := by
  intro b t ht
  rcases live_insert ht with ⟨rfl, -⟩ | ⟨-, ht⟩
  · exact ha
  · exact below_of_le hle (hb b t ht)

theorem Below.alloc (hb : Below h) (size : UInt64) : Below (h.alloc size).2 := by
  have hle := h.next_le_alloc size
  unfold Heap.alloc at hle ⊢
  split
  · exact hb
  · rename_i hsize
    rw [if_neg hsize] at hle
    exact hb.insert hle (h.below_after h.next hsize)

theorem Below.step (hb : Below h) (op : Op) : Below (h.step op) := by
  cases op with
  | alloc size => exact hb.alloc size
  | realloc a size =>
    have hle := h.next_le_step (.realloc a size)
    simp only [Heap.step] at hle ⊢
    rcases h.realloc_cases a size with ⟨-, heq⟩ | ⟨old, f, -, -, -, heq⟩ | ⟨old, f, hold, -, -, heq⟩ |
      ⟨old, hold, -, heq⟩ <;> rw [heq] at hle ⊢
    · exact hb.alloc size
    · exact (hb.free a).alloc size
    · exact hb.insert hle (hb a old hold)
    · exact hb.insert hle (below_of_le hle (hb a old hold))
  | free a => exact hb.free a

theorem Below.run (hb : Below h) (ops : List Op) : Below (h.run ops) := by
  induction ops generalizing h with
  | nil => exact hb
  | cons op ops ih => exact ih (hb.step op)

/-! ## The blocks after a request -/

theorem size_ne_zero_of_lt {room : UInt64} (h : room < size) : size ≠ 0 := by
  rintro rfl
  exact UInt64.not_lt.2 UInt64.zero_le h

theorem getElem?_insert_of_ne {b : Address} (hne : b ≠ a) : (h.live.insert a size)[b]? = h.live[b]? := by
  rw [Std.ExtTreeMap.getElem?_insert, if_neg (by simpa using Ne.symm hne)]

theorem getElem?_erase_of_ne {b : Address} (hne : b ≠ a) : (h.live.erase a)[b]? = h.live[b]? := by
  rw [Std.ExtTreeMap.getElem?_erase, if_neg (by simpa using Ne.symm hne)]

theorem getElem?_alloc_of_ne {b : Address} (hne : b ≠ h.next) (size : UInt64) :
    (h.alloc size).2.live[b]? = h.live[b]? := by
  unfold Heap.alloc
  split
  · rfl
  · exact getElem?_insert_of_ne hne

theorem next_ne_of_realloc (hnext : (h.realloc a size).2.next ≠ lastAddress) : h.next ≠ lastAddress := by
  intro hlast
  have hle : h.next ≤ (h.realloc a size).2.next := h.next_le_step (.realloc a size)
  exact hnext (UInt64.le_antisymm (le_lastAddress _) (hlast ▸ hle))

theorem Below.ne_next (hb : Below h) (hnext : h.next ≠ lastAddress) {b : Address} {t : UInt64}
    (ht : h.live[b]? = some t) : b ≠ h.next := by
  rintro rfl
  exact (hb _ t ht).elim (UInt64.lt_irrefl _) hnext

theorem Below.getElem?_realloc_of_ne (hb : Below h) (hnext : (h.realloc a size).2.next ≠ lastAddress) {b : Address}
    {t : UInt64} (hne : b ≠ a) (ht : h.live[b]? = some t) : (h.realloc a size).2.live[b]? = some t := by
  have hb' := hb.ne_next (next_ne_of_realloc hnext) ht
  rcases h.realloc_cases a size with ⟨-, heq⟩ | ⟨old, f, -, -, -, heq⟩ | ⟨old, f, -, -, -, heq⟩ | ⟨old, -, -, heq⟩ <;>
    rw [heq]
  · rw [getElem?_alloc_of_ne hb', ht]
  · rw [getElem?_alloc_of_ne (h := h.free a) hb', live_free, getElem?_erase_of_ne hne, ht]
  · exact (getElem?_insert_of_ne hne).trans ht
  · exact (getElem?_insert_of_ne hne).trans ht

/-- The block is recorded where the request says it is, unless nothing was asked for and nothing was there. -/
theorem getElem?_realloc_self (h : Heap) (a : Address) (size : UInt64) :
    h.live[a]? = none ∧ size = 0 ∧ (h.realloc a size).2 = h ∨
      ¬ (h.live[a]? = none ∧ size = 0) ∧ (h.realloc a size).2.live[(h.realloc a size).1.1]? = some size := by
  rcases h.realloc_cases a size with ⟨hold, heq⟩ | ⟨old, f, hold, -, hroom, heq⟩ | ⟨old, f, hold, -, -, heq⟩ |
    ⟨old, hold, -, heq⟩ <;> rw [heq, hold]
  · by_cases hsize : size = 0
    · exact .inl ⟨rfl, hsize, hsize ▸ rfl⟩
    · exact .inr ⟨by simp [hsize], h.live_alloc hsize⟩
  · exact .inr ⟨by simp, (h.free a).live_alloc (size_ne_zero_of_lt hroom)⟩
  · exact .inr ⟨by simp, Std.ExtTreeMap.getElem?_insert_self⟩
  · exact .inr ⟨by simp, Std.ExtTreeMap.getElem?_insert_self⟩

/-- A block that moves goes to the next free place, and there is room for it. -/
theorem Below.realloc_moved (hb : Below h) (hnext : (h.realloc a size).2.next ≠ lastAddress) {old : UInt64}
    (hmoved : (h.realloc a size).1.2 = some old) :
    h.live[a]? = some old ∧ (h.realloc a size).1.1 = h.next ∧ (h.realloc a size).2.live[a]? = none ∧
      h.next.toNat + size.toNat < 2 ^ 64 := by
  have hroom := next_ne_of_realloc hnext
  rcases h.realloc_cases a size with ⟨-, heq⟩ | ⟨s, f, hold, -, hlt, heq⟩ | ⟨s, f, -, -, -, heq⟩ | ⟨s, -, -, heq⟩ <;>
    rw [heq] at hmoved hnext ⊢
  · cases hmoved
  · obtain rfl := Option.some.inj hmoved
    refine ⟨hold, rfl, ?_, ?_⟩
    · rw [getElem?_alloc_of_ne (h := h.free a) (hb.ne_next hroom hold)]
      exact Std.ExtTreeMap.getElem?_erase_self
    · rw [Heap.alloc, if_neg (size_ne_zero_of_lt hlt), Ne, ← UInt64.toNat_inj, toNat_lastAddress] at hnext
      have hafter := (h.free a).toNat_after h.next size
      have hnext' : ((h.free a).after h.next size).toNat ≠ 2 ^ 64 - 1 := hnext
      omega
  · cases hmoved
  · cases hmoved

theorem realloc_stayed (h : Heap) (a : Address) (size : UInt64) (hstayed : (h.realloc a size).1.2 = none) :
    h.live[a]? = none ∨ (h.realloc a size).1.1 = a := by
  rcases h.realloc_cases a size with ⟨hold, -⟩ | ⟨s, f, -, -, -, heq⟩ | ⟨s, f, -, -, -, heq⟩ | ⟨s, -, -, heq⟩
  · exact .inl hold
  · rw [heq] at hstayed
    cases hstayed
  · exact .inr (by rw [heq])
  · exact .inr (by rw [heq])

end Heap

namespace Memory

variable {m : Memory}

/-! ## The heap of a memory -/

theorem heap_write (m : Memory) (a : Address) (data : Bytes) : (m.write a data).heap = m.heap := by
  obtain ⟨pages, heq⟩ := m.write_eq a data
  rw [heq]

theorem heap_realloc (m : Memory) (a : Address) (size : UInt64) :
    (m.realloc a size).2.heap = (m.heap.realloc a size).2 := by
  simp only [realloc]
  cases (m.heap.realloc a size).1.2 with
  | none => rfl
  | some old => exact heap_write _ _ _

theorem fst_realloc (m : Memory) (a : Address) (size : UInt64) :
    (m.realloc a size).1 = (m.heap.realloc a size).1.1 := by
  simp only [realloc]
  cases (m.heap.realloc a size).1.2 <;> rfl

theorem Reached.exists_heap_run (hm : Reached m) : ∃ base slack ops, m.heap = (Heap.empty base slack).run ops := by
  induction hm with
  | load segments base slack => exact ⟨_, slack, [], rfl⟩
  | @step m op _ ih =>
    obtain ⟨base, slack, ops, hrun⟩ := ih
    have hrequest : ∀ request, (m.step op).heap = m.heap.step request →
        ∃ base slack ops, (m.step op).heap = (Heap.empty base slack).run ops := by
      intro request heq
      refine ⟨base, slack, ops ++ [request], ?_⟩
      rw [heq, hrun, Heap.run_append]
      rfl
    cases op with
    | write a data => exact ⟨base, slack, ops, (m.heap_write a data).trans hrun⟩
    | writeWord a value width => exact ⟨base, slack, ops, (m.heap_write a _).trans hrun⟩
    | alloc size => exact hrequest (.alloc size) rfl
    | realloc a size => exact hrequest (.realloc a size) (m.heap_realloc a size)
    | free a => exact hrequest (.free a) rfl
  | limit n _ ih => exact ih

theorem Reached.heap_separated (hm : Reached m) : m.heap.Separated := by
  obtain ⟨base, slack, ops, hrun⟩ := hm.exists_heap_run
  exact hrun ▸ (Heap.separated_empty base slack).run ops

theorem Reached.heap_below (hm : Reached m) : m.heap.Below := by
  obtain ⟨base, slack, ops, hrun⟩ := hm.exists_heap_run
  exact hrun ▸ (Heap.below_empty base slack).run ops

/-! ## Contents -/

variable {a : Address} {size old : UInt64}

/-- How many bytes of a block a bulk operation moves to its new place. -/
def moved (m : Memory) (old size : UInt64) : Nat := (min (min old size) m.maxTransfer).toNat

theorem moved_le_size (m : Memory) (old size : UInt64) : m.moved old size ≤ size.toNat := by
  rw [moved, Word.toNat_min, Word.toNat_min]
  omega

theorem realloc_of_moved (hmoved : (m.heap.realloc a size).1.2 = some old) :
    ∃ m' : Memory, (∀ x, m'.byte x = m.byte x) ∧
      (m.realloc a size).2 = m'.write (m.realloc a size).1 (m.read a (m.moved old size)) := by
  refine ⟨{ m with heap := (m.heap.realloc a size).2 }, fun _ => rfl, ?_⟩
  simp only [realloc, hmoved]
  exact congrArg (Memory.write _ _) (read_congr fun i hi => rfl)

/-- A block that moves takes its contents along, as far as a bulk operation reaches. -/
theorem read_realloc_of_moved (hmoved : (m.heap.realloc a size).1.2 = some old) :
    (m.realloc a size).2.read (m.realloc a size).1 (m.moved old size) = m.read a (m.moved old size) := by
  obtain ⟨m', -, hwrite⟩ := realloc_of_moved hmoved
  have hlength := m.length_read a (m.moved old size)
  have hsize := m.moved_le_size old size
  have hlt := size.toNat_lt
  have hback := m'.read_write (m.realloc a size).1 (m.read a (m.moved old size)) (by omega)
  rwa [hlength, ← hwrite] at hback

/-- Nothing changes outside the new place of a block that moves. -/
theorem byte_realloc_of_moved (hmoved : (m.heap.realloc a size).1.2 = some old)
    (hroom : (m.realloc a size).1.toNat + size.toNat < 2 ^ 64) {x : Address}
    (hx : ¬ ((m.realloc a size).1.toNat ≤ x.toNat ∧ x.toNat < (m.realloc a size).1.toNat + size.toNat)) :
    (m.realloc a size).2.byte x = m.byte x := by
  obtain ⟨m', hm', hwrite⟩ := realloc_of_moved hmoved
  have hlength := m.length_read a (m.moved old size)
  have hsize := m.moved_le_size old size
  have hxlt := x.toNat_lt
  have hdistance : (m.read a (m.moved old size)).length ≤ (x - (m.realloc a size).1).toNat := by
    rw [UInt64.toNat_sub]
    omega
  rw [hwrite, m'.byte_write_of_le hdistance, hm']

theorem read_realloc_of_below (hmoved : (m.heap.realloc a size).1.2 = some old)
    (hroom : (m.realloc a size).1.toNat + size.toNat < 2 ^ 64) {b : Address} {n : Nat}
    (hbelow : b.toNat + n ≤ (m.realloc a size).1.toNat) : (m.realloc a size).2.read b n = m.read b n := by
  refine read_congr fun i hi => byte_realloc_of_moved hmoved hroom ?_
  rw [toNat_add_of_lt (by omega)]
  omega

theorem byte_realloc_of_stayed (hstayed : (m.heap.realloc a size).1.2 = none)
    (x : Address) : (m.realloc a size).2.byte x = m.byte x := by
  simp only [realloc, hstayed]
  rfl

/-- A request for another size loses nothing, in memory that a program can have and as long as the heap has room. The
block has its contents at the address it is given, those of a block that moves as far as a bulk operation reaches.
Bytes change only in the new place of a block that moves. Other live blocks keep their addresses, sizes and contents.
The block is recorded with its new size, and no longer where it was; a request for nothing at an address that is not
live records nothing. -/
theorem realloc_preserves (hm : Reached m) (a : Address) (size : UInt64)
    (hnext : (m.realloc a size).2.heap.next ≠ lastAddress) :
    let p := (m.realloc a size).1
    let m' := (m.realloc a size).2
    (∀ old, m.heap.live[a]? = some old → p = a →
      m'.read p (min old size).toNat = m.read a (min old size).toNat) ∧
    (∀ old, m.heap.live[a]? = some old → p ≠ a →
      m'.read p (min (min old size) m.maxTransfer).toNat = m.read a (min (min old size) m.maxTransfer).toNat ∧
      (∀ x, m'.byte x ≠ m.byte x → p.toNat ≤ x.toNat ∧ x.toNat < p.toNat + size.toNat) ∧
      m'.heap.live[a]? = none) ∧
    (m.heap.live[a]? = none ∨ p = a → ∀ x, m'.byte x = m.byte x) ∧
    (∀ b t, b ≠ a → m.heap.live[b]? = some t →
      m'.heap.live[b]? = some t ∧ m'.read b t.toNat = m.read b t.toNat) ∧
    (if m.heap.live[a]? = none ∧ size = 0 then m'.heap = m.heap else m'.heap.live[p]? = some size) := by
  intro p m'
  have hp : p = (m.heap.realloc a size).1.1 := m.fst_realloc a size
  have hheap : m'.heap = (m.heap.realloc a size).2 := m.heap_realloc a size
  have hbelow := hm.heap_below
  have hnext' : (m.heap.realloc a size).2.next ≠ lastAddress := hheap ▸ hnext
  have hothers : ∀ b t, b ≠ a → m.heap.live[b]? = some t → m'.heap.live[b]? = some t := fun b t hne ht =>
    hheap ▸ hbelow.getElem?_realloc_of_ne hnext' hne ht
  have hself : if m.heap.live[a]? = none ∧ size = 0 then m'.heap = m.heap else m'.heap.live[p]? = some size := by
    rw [hheap, hp]
    rcases m.heap.getElem?_realloc_self a size with ⟨hnone, hzero, hsame⟩ | ⟨hnot, hlive⟩
    · rw [if_pos ⟨hnone, hzero⟩, hsame]
    · rw [if_neg hnot, hlive]
  cases hmoved : (m.heap.realloc a size).1.2 with
  | none =>
    -- nothing is copied
    have hbyte : ∀ x, m'.byte x = m.byte x := byte_realloc_of_stayed hmoved
    have hread : ∀ b n, m'.read b n = m.read b n := fun b n => read_congr fun i _ => hbyte _
    refine ⟨fun old _ hpa => hpa ▸ hread p _, fun old hold hpa => ?_, fun _ => hbyte,
      fun b t hne ht => ⟨hothers b t hne ht, hread b _⟩, hself⟩
    rcases m.heap.realloc_stayed a size hmoved with hnone | hstay
    · rw [hnone] at hold
      cases hold
    · exact absurd (hp.trans hstay) hpa
  | some s =>
    -- the block is copied to the next free place, above every live block
    obtain ⟨hlive, hpnext, hgone, hroom⟩ := hbelow.realloc_moved hnext' hmoved
    have hheapRoom := Heap.next_ne_of_realloc hnext'
    have hplace : p = m.heap.next := hp.trans hpnext
    have hne : p ≠ a := hplace ▸ (hbelow.ne_next hheapRoom hlive).symm
    have hpRoom : p.toNat + size.toNat < 2 ^ 64 := hplace ▸ hroom
    refine ⟨fun _ _ hpa => absurd hpa hne, fun old hold _ => ⟨?_, fun x hx => ?_, hheap ▸ hgone⟩, fun hstay => ?_,
      fun b t hba ht => ⟨hothers b t hba ht, ?_⟩, hself⟩
    · obtain rfl := Option.some.inj (hlive.symm.trans hold)
      exact read_realloc_of_moved hmoved
    · by_contra hout
      exact hx (byte_realloc_of_moved hmoved hpRoom hout)
    · rw [hstay.resolve_right hne] at hlive
      cases hlive
    · have hbefore := Heap.add_le_of_extentStop_le (hm.heap_separated.stop_le_next b t ht) hheapRoom
      rw [← hplace] at hbefore
      exact read_realloc_of_below hmoved hpRoom hbefore

/-- A block that another one follows moves when it grows, and its contents are found at its new place. -/
theorem realloc_moved_contents :
    let m := (run (load [] 0x1000 0) [.alloc 4, .alloc 4]).step (.write 0x1000 [1, 2, 3])
    (m.realloc 0x1000 8).2.heap.next ≠ lastAddress ∧ m.heap.live[(0x1000 : Address)]? = some 4 ∧
      (m.realloc 0x1000 8).1 = 0x1008 ∧ (m.realloc 0x1000 8).2.read 0x1008 4 = m.read 0x1000 4 ∧
      (m.realloc 0x1000 8).2.heap.live[(0x1000 : Address)]? = none := by
  intro m
  have hreached : Reached m := .step _ (.step (.alloc 4) (.step (.alloc 4) (.load [] 0x1000 0)))
  have hheap : m.heap = (run (load [] 0x1000 0) [.alloc 4, .alloc 4]).heap := heap_write _ _ _
  have hnext : (m.realloc 0x1000 8).2.heap.next ≠ lastAddress := by
    rw [heap_realloc, hheap]
    decide
  have hlive : m.heap.live[(0x1000 : Address)]? = some 4 := by
    rw [hheap]
    rfl
  have hplace : (m.realloc 0x1000 8).1 = 0x1008 := by
    rw [fst_realloc, hheap]
    rfl
  have hne : (m.realloc 0x1000 8).1 ≠ 0x1000 := hplace ▸ by decide
  obtain ⟨hread, -, hgone⟩ := (realloc_preserves hreached 0x1000 8 hnext).2.1 4 hlive hne
  have hlimit : m.maxTransfer = defaultMaxTransfer := by
    obtain ⟨pages, heq⟩ := write_eq (run (load [] 0x1000 0) [.alloc 4, .alloc 4]) 0x1000 [1, 2, 3]
    rw [show m = _ from heq]
    rfl
  rw [hlimit, hplace] at hread
  exact ⟨hnext, hlive, hplace, hread, hgone⟩

end Memory
end PathReplay
