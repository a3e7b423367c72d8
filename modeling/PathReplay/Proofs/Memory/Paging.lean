import Mathlib.Algebra.Group.Nat.Defs
import PathReplay.Memory.Basic

/-!
# Addresses and their pages

* `toNat_add_ofNat`, `toNat_sub_add_ofNat` : address arithmetic modulo `2 ^ 64` on natural numbers;
* `toNat_pageBase` : a page base is the address less its position in the page;
* `pageBase_add`, `pageOffset_add` : within the room that an address has in its page, the page stays and the
  position grows;
* `toNat_sub_of_pageOffset_le`, `pageRoom_le_sub_of_pageOffset_lt`, `pageRoom_le_sub_of_pageBase_ne` : how far an
  address lies from another one, in the same page and outside.
-/

namespace PathReplay

/-! ## Address arithmetic -/

/-- The last address. Ends of segments and of allocations are at most this one and lie outside. -/
def lastAddress : Address := 0xFFFFFFFFFFFFFFFF

theorem toNat_lastAddress : lastAddress.toNat = 2 ^ 64 - 1 := rfl

theorem toNat_add_ofNat (a : Address) (i : Nat) :
    (a + UInt64.ofNat i).toNat = (a.toNat + i) % 2 ^ 64 := by
  rw [UInt64.toNat_add, UInt64.toNat_ofNat', Nat.add_mod_mod]

theorem toNat_add_of_lt {a : Address} {i : Nat} (h : a.toNat + i < 2 ^ 64) :
    (a + UInt64.ofNat i).toNat = a.toNat + i := by
  rw [toNat_add_ofNat, Nat.mod_eq_of_lt h]

theorem add_ofNat_add (a : Address) (i j : Nat) :
    a + UInt64.ofNat i + UInt64.ofNat j = a + UInt64.ofNat (i + j) := by
  rw [UInt64.ofNat_add, UInt64.add_assoc]

@[simp] theorem add_ofNat_sub_toNat (a x : Address) : a + UInt64.ofNat (x - a).toNat = x := by
  rw [UInt64.ofNat_toNat, UInt64.add_comm, UInt64.sub_add_cancel]

theorem toNat_add_ofNat_sub (a : Address) {n : Nat} (hn : n < 2 ^ 64) : (a + UInt64.ofNat n - a).toNat = n := by
  rw [UInt64.add_comm, UInt64.add_sub_cancel, UInt64.toNat_ofNat', Nat.mod_eq_of_lt hn]

/-- The distance of an address from one `n` bytes further on. -/
theorem toNat_sub_add_ofNat (x a : Address) {n : Nat} (hn : n < 2 ^ 64) :
    (x - (a + UInt64.ofNat n)).toNat =
      if n ≤ (x - a).toNat then (x - a).toNat - n else (x - a).toNat + 2 ^ 64 - n := by
  have hx := x.toNat_lt
  have ha := a.toNat_lt
  rw [UInt64.toNat_sub, UInt64.toNat_sub, toNat_add_ofNat]
  split <;> omega

/-! ## Pages -/

/-- The position of an address in its page is below `2 ^ 12` and counts from the page base. -/
theorem toNat_pageBase (a : Address) : (pageBase a).toNat = a.toNat - pageOffset a := by
  have hmask : a.toNat &&& 0xFFFFFFFFFFFFF000 = a.toNat / 2 ^ 12 * 2 ^ 12 := by
    refine Nat.eq_of_testBit_eq fun j => ?_
    rw [Nat.testBit_and, Nat.testBit_mul_two_pow, Nat.testBit_div_two_pow,
      show (0xFFFFFFFFFFFFF000 : Nat) = (2 ^ 52 - 1) * 2 ^ 12 from rfl, Nat.testBit_mul_two_pow,
      Nat.testBit_two_pow_sub_one]
    by_cases hj : 12 ≤ j
    · rw [Nat.sub_add_cancel hj]
      by_cases hj' : j < 64
      · simp [hj, show j - 12 < 52 by omega]
      · have : a.toNat.testBit j = false :=
          Nat.testBit_lt_two_pow (Nat.lt_of_lt_of_le a.toNat_lt
            (Nat.pow_le_pow_right (by decide) (by omega)))
        simp [this]
    · simp [hj]
  rw [pageBase, UInt64.toNat_and, show (0xFFFFFFFFFFFFF000 : UInt64).toNat = 0xFFFFFFFFFFFFF000 from rfl,
    hmask, pageOffset, show pageSize = 2 ^ 12 from rfl]
  omega

theorem pageOffset_le (a : Address) : pageOffset a ≤ a.toNat := Nat.mod_le _ _

theorem toNat_pageBase_add (a : Address) : (pageBase a).toNat + pageOffset a = a.toNat := by
  rw [toNat_pageBase, Nat.sub_add_cancel (pageOffset_le a)]

/-- The top of the address space is the end of a page. -/
theorem toNat_add_le_of_le_pageRoom {a : Address} {n : Nat} (h : n ≤ pageRoom a) :
    a.toNat + n ≤ 2 ^ 64 := by
  have ha := a.toNat_lt
  simp only [pageRoom, pageOffset, pageSize] at h
  omega

theorem pageOffset_add {a : Address} {i : Nat} (h : i < pageRoom a) :
    pageOffset (a + UInt64.ofNat i) = pageOffset a + i := by
  have hle := toNat_add_le_of_le_pageRoom (Nat.succ_le_of_lt h)
  rw [pageOffset, toNat_add_of_lt (by omega), pageOffset]
  simp only [pageRoom, pageOffset, pageSize] at h ⊢
  omega

theorem pageBase_add {a : Address} {i : Nat} (h : i < pageRoom a) :
    pageBase (a + UInt64.ofNat i) = pageBase a := by
  have hle := toNat_add_le_of_le_pageRoom (Nat.succ_le_of_lt h)
  refine UInt64.toNat_inj.1 ?_
  rw [toNat_pageBase, toNat_pageBase, pageOffset_add h, toNat_add_of_lt (by omega)]
  omega

theorem pageBase_add_pageOffset (a : Address) : pageBase a + UInt64.ofNat (pageOffset a) = a := by
  refine UInt64.toNat_inj.1 ?_
  have := toNat_pageBase_add a
  rw [toNat_add_of_lt (by have := a.toNat_lt; omega), this]

theorem toNat_sub_of_pageOffset_le {a x : Address} (h : pageBase x = pageBase a)
    (hle : pageOffset a ≤ pageOffset x) : (x - a).toNat = pageOffset x - pageOffset a := by
  have hx := toNat_pageBase_add x
  have ha := toNat_pageBase_add a
  rw [h] at hx
  rw [UInt64.toNat_sub_of_le _ _ (UInt64.le_iff_toNat_le.2 (by omega))]
  omega

/-- Below `a` in its page, an address lies further from `a` than the page reaches. -/
theorem pageRoom_le_sub_of_pageOffset_lt {a x : Address} (h : pageBase x = pageBase a)
    (hlt : pageOffset x < pageOffset a) : pageRoom a ≤ (x - a).toNat := by
  have hx := toNat_pageBase_add x
  have ha := toNat_pageBase_add a
  have hax := a.toNat_lt
  have hsize := pageOffset_lt a
  rw [h] at hx
  rw [UInt64.toNat_sub, pageRoom]
  simp only [pageSize] at hsize ⊢
  omega

theorem pageRoom_le_sub_of_pageBase_ne {a x : Address} (h : pageBase x ≠ pageBase a) :
    pageRoom a ≤ (x - a).toNat := by
  refine Nat.le_of_not_lt fun hlt => h ?_
  rw [← add_ofNat_sub_toNat a x]
  exact pageBase_add hlt

end PathReplay
