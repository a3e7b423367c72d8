import PathReplay.Proofs.Memory.Paging

/-!
# The heap over whole runs

* `following?_eq_some`, `following?_eq_none` : the allocation after an address;
* `realloc_cases` : the four things that a request for another size can do;
* `Separated` : live allocations lie one after the other between the base and the next free place;
  `Separated.run` : they do after every run;
* `next_le_run` : the next free place never goes down;
* `Held`, `HandedOut` : the extents that blocks have had in a run, and the addresses given to new blocks;
  `Separated.held_le_fresh`, `run_safe` : a new block lies above both.
-/

namespace PathReplay.Heap

variable {h : Heap} {a b f : Address} {s t size old : UInt64}

theorem toNat_extentStop (e : Address × UInt64) :
    (extentStop e).toNat = min (e.1.toNat + e.2.toNat) (2 ^ 64 - 1) :=
  Word.toNat_saturatingAdd e.1 e.2

theorem toNat_after (h : Heap) (a : Address) (size : UInt64) :
    (h.after a size).toNat = min (min (a.toNat + size.toNat) (2 ^ 64 - 1) + h.slack.toNat) (2 ^ 64 - 1) := by
  have hstop := toNat_extentStop (a, size)
  have hafter := Word.toNat_saturatingAdd (extentStop (a, size)) h.slack
  rw [hstop] at hafter
  exact hafter

theorem extentStop_le_after (h : Heap) (a : Address) (size : UInt64) :
    extentStop (a, size) ≤ h.after a size := by
  rw [UInt64.le_iff_toNat_le, toNat_extentStop, toNat_after]
  exact Nat.le_min.2 ⟨Nat.le_add_right _ _, Nat.min_le_right _ _⟩

theorem le_extentStop (e : Address × UInt64) : e.1 ≤ extentStop e := by
  have := e.1.toNat_lt
  rw [UInt64.le_iff_toNat_le, toNat_extentStop]
  omega

/-! ## The allocation after an address -/

theorem following?_eq_some (hf : h.following? a = some f) :
    (∃ s, h.live[f]? = some s) ∧ Word.saturatingAdd a 1 ≤ f ∧
      ∀ b t, h.live[b]? = some t → Word.saturatingAdd a 1 ≤ b → f ≤ b := by
  obtain ⟨⟨g, s⟩, hfind, rfl⟩ := Option.map_eq_some_iff.1 hf
  obtain ⟨hle, before, after, hlist, hbefore⟩ := List.find?_eq_some_iff_append.1 hfind
  refine ⟨⟨s, ?_⟩, by simpa using hle, fun b t hb hab => ?_⟩
  · have hmem : (g, s) ∈ h.toList := by rw [hlist]; simp
    exact Std.ExtTreeMap.mem_toList_iff_getElem?_eq_some.1 hmem
  · have hmem : (b, t) ∈ h.toList := Std.ExtTreeMap.mem_toList_iff_getElem?_eq_some.2 hb
    have hsorted : h.toList.Pairwise fun x y => compare x.1 y.1 = .lt :=
      Std.ExtTreeMap.ordered_keys_toList
    rw [hlist] at hmem hsorted
    rcases List.mem_append.1 hmem with hmem | hmem
    · have := hbefore _ hmem
      simp [hab] at this
    · rcases List.mem_cons.1 hmem with heq | hmem
      · exact UInt64.le_of_eq (congrArg Prod.fst heq).symm
      · have hlt := List.rel_of_pairwise_cons (List.pairwise_append.1 hsorted).2.1 hmem
        exact UInt64.le_of_lt (Std.compare_eq_lt.1 hlt)

theorem following?_eq_none (hf : h.following? a = none) (hb : h.live[b]? = some t) :
    b < Word.saturatingAdd a 1 := by
  have hfind := List.find?_eq_none.1 (Option.map_eq_none_iff.1 hf) (b, t)
    (Std.ExtTreeMap.mem_toList_iff_getElem?_eq_some.2 hb)
  simpa using hfind

/-- A request for another size gets a new block for an address that is not live, and moves a block that does
not fit below the one that follows it; a block that fits, or that none follows, stays. -/
theorem realloc_cases (h : Heap) (a : Address) (size : UInt64) :
    (h.live[a]? = none ∧ h.realloc a size = ((h.next, none), (h.alloc size).2)) ∨
    (∃ old f, h.live[a]? = some old ∧ h.following? a = some f ∧ f - a < size ∧
      h.realloc a size = ((h.next, some old), ((h.free a).alloc size).2)) ∨
    (∃ old f, h.live[a]? = some old ∧ h.following? a = some f ∧ size ≤ f - a ∧
      h.realloc a size = ((a, none), { h with live := h.live.insert a size })) ∨
    (∃ old, h.live[a]? = some old ∧ h.following? a = none ∧
      h.realloc a size =
        ((a, none), { h with live := h.live.insert a size, next := max h.next (h.after a size) })) := by
  unfold realloc
  cases hold : h.live[a]? with
  | none => exact .inl ⟨rfl, rfl⟩
  | some old =>
    cases hf : h.following? a with
    | none => exact .inr (.inr (.inr ⟨old, rfl, rfl, rfl⟩))
    | some f =>
      by_cases hroom : f - a < size
      · exact .inr (.inl ⟨old, f, rfl, rfl, hroom, if_pos hroom⟩)
      · exact .inr (.inr (.inl ⟨old, f, rfl, rfl, UInt64.not_lt.1 hroom, if_neg hroom⟩))

/-! ## Live allocations -/

/-- Live allocations lie one after the other between the base and the next free place. -/
structure Separated (h : Heap) : Prop where
  stop_le : ∀ a s b t, h.live[a]? = some s → h.live[b]? = some t → a < b → extentStop (a, s) ≤ b
  base_le : ∀ a s, h.live[a]? = some s → h.base ≤ a
  stop_le_next : ∀ a s, h.live[a]? = some s → extentStop (a, s) ≤ h.next
  base_le_next : h.base ≤ h.next

theorem separated_empty (base : Address) (slack : UInt64) : Separated (empty base slack) := by
  have hnone : ∀ a : Address, (empty base slack).live[a]? = none := fun _ => Std.ExtTreeMap.getElem?_empty
  exact ⟨fun a s b t ha => by simp [hnone] at ha, fun a s ha => by simp [hnone] at ha,
    fun a s ha => by simp [hnone] at ha, UInt64.le_refl base⟩

theorem live_insert {a b : Address} {size t : UInt64}
    (hb : (h.live.insert a size)[b]? = some t) : a = b ∧ size = t ∨ a ≠ b ∧ h.live[b]? = some t := by
  simp only [Std.ExtTreeMap.getElem?_insert, Std.LawfulEqCmp.compare_eq_iff_eq] at hb
  split at hb
  · rename_i heq
    exact .inl ⟨heq, Option.some.inj hb⟩
  · rename_i hne
    exact .inr ⟨hne, hb⟩

theorem live_erase {a b : Address} {t : UInt64} (hb : (h.live.erase a)[b]? = some t) :
    h.live[b]? = some t := by
  rw [Std.ExtTreeMap.getElem?_erase] at hb
  split at hb
  · cases hb
  · exact hb

theorem Separated.free (hi : Separated h) (a : Address) : Separated (h.free a) where
  stop_le b s c t hb hc := hi.stop_le b s c t (live_erase hb) (live_erase hc)
  base_le b s hb := hi.base_le b s (live_erase hb)
  stop_le_next b s hb := hi.stop_le_next b s (live_erase hb)
  base_le_next := hi.base_le_next

/-- An allocation may be given an extent that lies clear of those below and above it. -/
theorem Separated.insert (hi : Separated h) {next : Address} (hbase : h.base ≤ a) (hnext : h.next ≤ next)
    (hstop : extentStop (a, size) ≤ next)
    (hbelow : ∀ b t, h.live[b]? = some t → b < a → extentStop (b, t) ≤ a)
    (habove : ∀ b t, h.live[b]? = some t → a < b → extentStop (a, size) ≤ b) :
    Separated { h with live := h.live.insert a size, next } where
  stop_le b s c t hb hc hlt := by
    rcases live_insert hb with ⟨rfl, rfl⟩ | ⟨-, hb⟩ <;> rcases live_insert hc with ⟨rfl, rfl⟩ | ⟨-, hc⟩
    · exact absurd hlt (UInt64.lt_irrefl _)
    · exact habove c t hc hlt
    · exact hbelow b s hb hlt
    · exact hi.stop_le b s c t hb hc hlt
  base_le b s hb := by
    rcases live_insert hb with ⟨rfl, rfl⟩ | ⟨-, hb⟩
    · exact hbase
    · exact hi.base_le b s hb
  stop_le_next b s hb := by
    rcases live_insert hb with ⟨rfl, rfl⟩ | ⟨-, hb⟩
    · exact hstop
    · exact UInt64.le_trans (hi.stop_le_next b s hb) hnext
  base_le_next := UInt64.le_trans hi.base_le_next hnext

theorem Separated.alloc (hi : Separated h) (size : UInt64) : Separated (h.alloc size).2 := by
  unfold Heap.alloc
  split
  · exact hi
  · have hstop := h.extentStop_le_after h.next size
    have hnext := UInt64.le_trans (le_extentStop (h.next, size)) hstop
    refine hi.insert hi.base_le_next hnext hstop (fun b t hb _ => hi.stop_le_next b t hb)
      (fun b t hb hlt => ?_)
    -- Nothing is live above the next free place.
    have hle := UInt64.le_trans (le_extentStop (b, t)) (hi.stop_le_next b t hb)
    exact absurd (UInt64.lt_of_lt_of_le hlt hle) (UInt64.lt_irrefl _)

/-- The allocation that follows `a` bounds what `a` may grow to. -/
theorem extentStop_le_following (hf : h.following? a = some f) (hroom : size ≤ f - a) :
    extentStop (a, size) ≤ f := by
  have hle := (following?_eq_some hf).2.1
  rw [UInt64.le_iff_toNat_le, Word.toNat_saturatingAdd] at hle
  have ha := a.toNat_lt
  have hone : (1 : UInt64).toNat = 1 := rfl
  have hsize : UInt64.size = 2 ^ 64 := rfl
  have haf : a ≤ f := UInt64.le_iff_toNat_le.2 (by omega)
  rw [UInt64.le_iff_toNat_le, UInt64.toNat_sub_of_le _ _ haf] at hroom
  rw [UInt64.le_iff_toNat_le] at haf ⊢
  rw [toNat_extentStop]
  refine Nat.le_trans (Nat.min_le_left _ _) ?_
  show a.toNat + size.toNat ≤ f.toNat
  omega

theorem saturatingAdd_one_le {a b : Address} (hlt : a < b) : Word.saturatingAdd a 1 ≤ b := by
  rw [UInt64.lt_iff_toNat_lt] at hlt
  rw [UInt64.le_iff_toNat_le, Word.toNat_saturatingAdd]
  exact Nat.le_trans (Nat.min_le_left _ _) hlt

theorem Separated.realloc (hi : Separated h) (a : Address) (size : UInt64) :
    Separated (h.realloc a size).2 := by
  rcases h.realloc_cases a size with ⟨-, heq⟩ | ⟨old, f, -, -, -, heq⟩ | ⟨old, f, hold, hf, hroom, heq⟩ |
    ⟨old, hold, hf, heq⟩ <;> rw [heq]
  · exact hi.alloc size
  · exact (hi.free a).alloc size
  · obtain ⟨⟨s, hs⟩, -, hfirst⟩ := following?_eq_some hf
    have hstop := extentStop_le_following hf hroom
    have hnext := UInt64.le_trans (le_extentStop (f, s)) (hi.stop_le_next f s hs)
    exact hi.insert (hi.base_le a old hold) (UInt64.le_refl _) (UInt64.le_trans hstop hnext)
      (fun b t hb hlt => hi.stop_le b t a old hb hold hlt)
      (fun b t hb hlt => UInt64.le_trans hstop (hfirst b t hb (saturatingAdd_one_le hlt)))
  · have hle : h.next ≤ max h.next (h.after a size) := by
      rw [UInt64.le_iff_toNat_le, Word.toNat_max]
      exact Nat.le_max_left _ _
    have hstop : extentStop (a, size) ≤ max h.next (h.after a size) := by
      refine UInt64.le_trans (h.extentStop_le_after a size) ?_
      rw [UInt64.le_iff_toNat_le, Word.toNat_max]
      exact Nat.le_max_right _ _
    refine hi.insert (hi.base_le a old hold) hle hstop
      (fun b t hb hlt => hi.stop_le b t a old hb hold hlt) (fun b t hb hlt => ?_)
    -- No allocation follows the last one.
    have hnot := following?_eq_none hf hb
    exact absurd (UInt64.lt_of_lt_of_le hnot (saturatingAdd_one_le hlt)) (UInt64.lt_irrefl _)

/-! ## Runs -/

/-- A request to the heap. -/
inductive Op where
  | alloc (size : UInt64)
  | realloc (a : Address) (size : UInt64)
  | free (a : Address)

def step (h : Heap) : Op → Heap
  | .alloc size => (h.alloc size).2
  | .realloc a size => (h.realloc a size).2
  | .free a => h.free a

def run (h : Heap) (ops : List Op) : Heap := ops.foldl step h

theorem run_append (h : Heap) (ops more : List Op) : h.run (ops ++ more) = (h.run ops).run more :=
  List.foldl_append

theorem Separated.step (hi : Separated h) (op : Op) : Separated (h.step op) := by
  cases op with
  | alloc size => exact hi.alloc size
  | realloc a size => exact hi.realloc a size
  | free a => exact hi.free a

theorem Separated.run (hi : Separated h) (ops : List Op) : Separated (h.run ops) := by
  induction ops generalizing h with
  | nil => exact hi
  | cons op ops ih => exact ih (hi.step op)

theorem base_step (h : Heap) (op : Op) : (h.step op).base = h.base := by
  have halloc : ∀ (h : Heap) size, (h.alloc size).2.base = h.base := by
    intro h size
    unfold Heap.alloc
    split <;> rfl
  cases op with
  | alloc size => exact halloc h size
  | realloc a size =>
    simp only [Heap.step]
    rcases h.realloc_cases a size with ⟨-, heq⟩ | ⟨old, f, -, -, -, heq⟩ | ⟨old, f, -, -, -, heq⟩ |
      ⟨old, -, -, heq⟩ <;> rw [heq]
    · exact halloc h size
    · exact halloc (h.free a) size
  | free a => rfl

theorem base_run (h : Heap) (ops : List Op) : (h.run ops).base = h.base := by
  induction ops generalizing h with
  | nil => rfl
  | cons op ops ih => exact (ih _).trans (h.base_step op)

theorem next_le_alloc (h : Heap) (size : UInt64) : h.next ≤ (h.alloc size).2.next := by
  unfold Heap.alloc
  split
  · exact UInt64.le_refl _
  · exact UInt64.le_trans (le_extentStop (h.next, size)) (h.extentStop_le_after h.next size)

theorem next_le_step (h : Heap) (op : Op) : h.next ≤ (h.step op).next := by
  cases op with
  | alloc size => exact h.next_le_alloc size
  | realloc a size =>
    simp only [Heap.step]
    rcases h.realloc_cases a size with ⟨-, heq⟩ | ⟨old, f, -, -, -, heq⟩ | ⟨old, f, -, -, -, heq⟩ |
      ⟨old, -, -, heq⟩ <;> rw [heq]
    · exact h.next_le_alloc size
    · exact (h.free a).next_le_alloc size
    · exact UInt64.le_refl _
    · rw [UInt64.le_iff_toNat_le, Word.toNat_max]
      exact Nat.le_max_left _ _
  | free a => exact UInt64.le_refl _

/-- The next free place never goes down. -/
theorem next_le_run (h : Heap) (ops : List Op) : h.next ≤ (h.run ops).next := by
  induction ops generalizing h with
  | nil => exact UInt64.le_refl _
  | cons op ops ih => exact UInt64.le_trans (h.next_le_step op) (ih _)

/-! ## New blocks -/

/-- The address of the new block that a request is given: for an allocation and for a request for another size at
an address that is not live, of a size that is not zero, and for one that moves a block. -/
def fresh? (h : Heap) : Op → Option Address
  | .alloc size => if size = 0 then none else some (h.alloc size).1
  | .realloc a size =>
    let (p, moved) := (h.realloc a size).1
    if moved.isSome ∨ h.isLive a = false ∧ size ≠ 0 then some p else none
  | .free _ => none

/-- A block has had the extent at some point of a run. -/
def Held (h : Heap) (ops : List Op) (a : Address) (s : UInt64) : Prop :=
  ∃ before, before <+: ops ∧ (h.run before).live[a]? = some s

/-- A request of a run was given a new block at the address. -/
def HandedOut (h : Heap) (ops : List Op) (a : Address) : Prop :=
  ∃ before op, before ++ [op] <+: ops ∧ (h.run before).fresh? op = some a

theorem live_alloc (h : Heap) (hsize : size ≠ 0) : (h.alloc size).2.live[h.next]? = some size := by
  rw [Heap.alloc, if_neg hsize]
  exact Std.ExtTreeMap.getElem?_insert_self

theorem isLive_of_getElem? (hold : h.live[a]? = some old) : h.isLive a = true := by
  rw [isLive_eq_isSome, sizeOf?, hold, Option.isSome_some]

/-- A new block is at the next free place. It is live then, and its size is not zero. -/
theorem fresh?_eq_some {op : Op} {p : Address} (hp : h.fresh? op = some p) :
    p = h.next ∧ ∃ size, size ≠ 0 ∧ (h.step op).live[p]? = some size := by
  cases op with
  | alloc size =>
    simp only [fresh?, fst_alloc] at hp
    split at hp
    · cases hp
    · rename_i hsize
      obtain rfl := Option.some.inj hp
      exact ⟨rfl, size, hsize, h.live_alloc hsize⟩
  | realloc a size =>
    simp only [fresh?] at hp
    simp only [Heap.step]
    rcases h.realloc_cases a size with ⟨-, heq⟩ | ⟨old, f, -, -, hroom, heq⟩ | ⟨old, f, hold, -, -, heq⟩ |
      ⟨old, hold, -, heq⟩ <;> rw [heq] at hp ⊢
    · split at hp
      · rename_i hnew
        obtain rfl := Option.some.inj hp
        have hsize : size ≠ 0 := by simpa using hnew.elim (fun h => by simp at h) And.right
        exact ⟨rfl, size, hsize, h.live_alloc hsize⟩
      · cases hp
    · rw [if_pos (.inl rfl)] at hp
      obtain rfl := Option.some.inj hp
      have hsize : size ≠ 0 := by
        rintro rfl
        exact absurd hroom (UInt64.not_lt.2 UInt64.zero_le)
      exact ⟨rfl, size, hsize, (h.free a).live_alloc hsize⟩
    · rw [if_neg (by simp [isLive_of_getElem? hold])] at hp
      cases hp
    · rw [if_neg (by simp [isLive_of_getElem? hold])] at hp
      cases hp
  | free a => cases hp

/-- In a separated heap, every extent that a block has had in a run ends at or below the next free place. -/
theorem Separated.held_le_next (hi : Separated h) {ops : List Op} (hs : Held h ops a s) :
    extentStop (a, s) ≤ (h.run ops).next := by
  obtain ⟨before, ⟨after, rfl⟩, hlive⟩ := hs
  rw [run_append]
  exact UInt64.le_trans ((hi.run before).stop_le_next a s hlive) (next_le_run _ after)

/-- Below the last address, the end of an extent is exact. -/
theorem add_le_of_extentStop_le {p : Address} (hle : extentStop (a, s) ≤ p) (hp : p ≠ lastAddress) :
    a.toNat + s.toNat ≤ p.toNat := by
  have hlt := p.toNat_lt
  rw [Ne, ← UInt64.toNat_inj, toNat_lastAddress] at hp
  rw [UInt64.le_iff_toNat_le, toNat_extentStop] at hle
  simp only at hle
  omega

/-- As long as the next free place is below the last address, a new block lies above every extent that a block
has had. -/
theorem Separated.held_le_fresh (hi : Separated h) {ops : List Op} {op : Op} {p : Address}
    (hnext : (h.run ops).next ≠ lastAddress) (hp : (h.run ops).fresh? op = some p) (hs : Held h ops a s) :
    a.toNat + s.toNat ≤ p.toNat := by
  obtain ⟨rfl, -⟩ := fresh?_eq_some hp
  exact add_le_of_extentStop_le (hi.held_le_next hs) hnext

theorem held_of_handedOut {ops : List Op} (hq : HandedOut h ops a) : ∃ s, s ≠ 0 ∧ Held h ops a s := by
  obtain ⟨before, op, hprefix, hfresh⟩ := hq
  obtain ⟨-, s, hs, hlive⟩ := fresh?_eq_some hfresh
  refine ⟨s, hs, before ++ [op], hprefix, ?_⟩
  rwa [run_append]

/-- After every run of requests: live allocations do not overlap, none lies below the base or reaches past the
next free place, and that place never goes down. As long as it is below the last address, a new block lies above
every extent that a block has had in the run, so no address is handed out twice. -/
theorem run_safe (base : Address) (slack : UInt64) (ops : List Op) :
    let h := run (empty base slack) ops
    (∀ a s b t, h.live[a]? = some s → h.live[b]? = some t → a < b → Word.saturatingAdd a s ≤ b) ∧
    (∀ a s, h.live[a]? = some s → base ≤ a ∧ Word.saturatingAdd a s ≤ h.next) ∧
    (∀ more, h.next ≤ (h.run more).next) ∧
    ∀ op p, h.next ≠ lastAddress → h.fresh? op = some p →
      (∀ a s, Held (empty base slack) ops a s → a.toNat + s.toNat ≤ p.toNat) ∧
      ∀ q, HandedOut (empty base slack) ops q → q < p := by
  intro h
  have hempty := separated_empty base slack
  have hi : Separated h := hempty.run ops
  have hbase : h.base = base := base_run _ ops
  refine ⟨hi.stop_le, fun a s hs => ⟨hbase ▸ hi.base_le a s hs, hi.stop_le_next a s hs⟩, h.next_le_run,
    fun op p hnext hp => ⟨fun a s hs => hempty.held_le_fresh hnext hp hs, fun q hq => ?_⟩⟩
  obtain ⟨s, hs, hheld⟩ := held_of_handedOut hq
  have hle := hempty.held_le_fresh hnext hp hheld
  have hpos : 0 < s.toNat := Nat.pos_of_ne_zero fun h0 => hs (UInt64.toNat_inj.1 h0)
  rw [UInt64.lt_iff_toNat_lt]
  omega

/-- The block of a first allocation that was released is not handed out again. -/
theorem freed_block_not_reused :
    let h := run (empty 0x1000 0) [.alloc 16, .free 0x1000]
    h.next ≠ lastAddress ∧ h.fresh? (.alloc 8) = some 0x1010 ∧
      HandedOut (empty 0x1000 0) [.alloc 16, .free 0x1000] 0x1000 ∧ (0x1000 : Address) < 0x1010 := by
  intro h
  have hnext : h.next ≠ lastAddress := by decide
  have hfresh : h.fresh? (.alloc 8) = some 0x1010 := rfl
  have hout : HandedOut (empty 0x1000 0) [.alloc 16, .free 0x1000] 0x1000 :=
    ⟨[], .alloc 16, ⟨[.free 0x1000], rfl⟩, rfl⟩
  have hsafe := (run_safe 0x1000 0 [.alloc 16, .free 0x1000]).2.2.2 (.alloc 8) 0x1010 hnext hfresh
  exact ⟨hnext, hfresh, hout, hsafe.2 0x1000 hout⟩

end PathReplay.Heap
