import Mathlib.Algebra.BigOperators.Intervals
import Mathlib.Algebra.Order.BigOperators.Group.Finset
import Mathlib.Order.Interval.Finset.Nat

/-! Extents that fill an interval without gap or overlap, in any order. An empty extent may
lie at the border of others, but not inside one. -/

open Finset

variable {ι : Type*} {s : Finset ι} {pos pos' len len' : ι → ℕ} {lo hi : ℕ}

structure Tiling (s : Finset ι) (pos len : ι → ℕ) (lo hi : ℕ) : Prop where
  bounds : lo ≤ hi
  inside : ∀ i ∈ s, lo ≤ pos i ∧ pos i + len i ≤ hi
  apart : ∀ i ∈ s, ∀ j ∈ s, i ≠ j → pos i + len i ≤ pos j ∨ pos j + len j ≤ pos i
  cover : ∀ p, lo ≤ p → p < hi → ∃ i ∈ s, pos i ≤ p ∧ p < pos i + len i

namespace Tiling

theorem empty (lo : ℕ) : Tiling (∅ : Finset ι) pos len lo lo where
  bounds := le_rfl
  inside := by simp
  apart := by simp
  cover := fun p h₁ h₂ => by omega

theorem congr (h : Tiling s pos len lo hi) (hp : ∀ i ∈ s, pos' i = pos i)
    (hl : ∀ i ∈ s, len' i = len i) : Tiling s pos' len' lo hi where
  bounds := h.bounds
  inside := fun i hi => by rw [hp i hi, hl i hi]; exact h.inside i hi
  apart := fun i hi j hj hij => by rw [hp i hi, hl i hi, hp j hj, hl j hj]; exact h.apart i hi j hj hij
  cover := fun p h₁ h₂ => by
    obtain ⟨i, hi, hpi⟩ := h.cover p h₁ h₂
    exact ⟨i, hi, by rw [hp i hi, hl i hi]; exact hpi⟩

/-- A new extent behind the last one. -/
theorem insert [DecidableEq ι] (h : Tiling s pos len lo hi) {d : ι} (hd : d ∉ s)
    (hp : pos d = hi) : Tiling (insert d s) pos len lo (hi + len d) where
  bounds := h.bounds.trans (Nat.le_add_right _ _)
  inside := by
    intro i hi'
    rcases mem_insert.mp hi' with rfl | his
    · exact ⟨hp ▸ h.bounds, by omega⟩
    · have := h.inside i his
      omega
  apart := by
    intro i hi' j hj' hij
    rcases mem_insert.mp hi' with rfl | his <;> rcases mem_insert.mp hj' with rfl | hjs
    · exact absurd rfl hij
    · exact .inr (by have := h.inside j hjs; omega)
    · exact .inl (by have := h.inside i his; omega)
    · exact h.apart i his j hjs hij
  cover := by
    intro p h₁ h₂
    by_cases hlt : p < hi
    · obtain ⟨i, his, hpi⟩ := h.cover p h₁ hlt
      exact ⟨i, mem_insert_of_mem his, hpi⟩
    · exact ⟨d, mem_insert_self _ _, by omega, by omega⟩

/-- Removing an extent and moving every later one back by its length. -/
theorem remove [DecidableEq ι] (h : Tiling s pos len lo hi) {d : ι} (hd : d ∈ s)
    (hp : ∀ i ∈ s, i ≠ d → pos' i = if pos d < pos i then pos i - len d else pos i) :
    Tiling (s.erase d) pos' len lo (hi - len d) := by
  have hdin := h.inside d hd
  -- where a remaining extent lies: before the removed one, or behind it
  have hside : ∀ i ∈ s, i ≠ d → (pos i ≤ pos d ∧ pos' i = pos i ∧ pos i + len i ≤ hi - len d ∧
      (len d = 0 ∨ pos i + len i ≤ pos d)) ∨
      (pos d < pos i ∧ pos d + len d ≤ pos i ∧ pos' i = pos i - len d) := by
    intro i his hid
    have hi := h.inside i his
    have ha := h.apart i his d hd hid
    rw [hp i his hid]
    split_ifs with hlt
    · exact .inr ⟨hlt, by omega, rfl⟩
    · exact .inl ⟨by omega, rfl, by omega, by omega⟩
  refine ⟨by omega, ?_, ?_, ?_⟩
  · intro i hi'
    obtain ⟨hid, his⟩ := mem_erase.mp hi'
    have hi := h.inside i his
    rcases hside i his hid with ⟨_, he, _, _⟩ | ⟨_, _, he⟩ <;> rw [he] <;> omega
  · intro i hi' j hj' hij
    obtain ⟨hid, his⟩ := mem_erase.mp hi'
    obtain ⟨hjd, hjs⟩ := mem_erase.mp hj'
    have ha := h.apart i his j hjs hij
    rcases hside i his hid with ⟨_, hei, _, _⟩ | ⟨_, _, hei⟩ <;>
      rcases hside j hjs hjd with ⟨_, hej, _, _⟩ | ⟨_, _, hej⟩ <;> rw [hei, hej] <;> omega
  · intro p h₁ h₂
    by_cases hlt : p < pos d
    · obtain ⟨i, his, h₃, h₄⟩ := h.cover p h₁ (by omega)
      have hid : i ≠ d := by rintro rfl; omega
      refine ⟨i, mem_erase.mpr ⟨hid, his⟩, ?_⟩
      rcases hside i his hid with ⟨_, he, _, _⟩ | ⟨_, _, he⟩ <;> rw [he] <;> omega
    · obtain ⟨i, his, h₃, h₄⟩ := h.cover (p + len d) (by omega) (by omega)
      have hid : i ≠ d := by rintro rfl; omega
      refine ⟨i, mem_erase.mpr ⟨hid, his⟩, ?_⟩
      rcases hside i his hid with ⟨_, he, _, _⟩ | ⟨_, _, he⟩ <;> rw [he] <;> omega

/-! ## Lengths -/

theorem pairwiseDisjoint (h : Tiling s pos len lo hi) :
    (s : Set ι).PairwiseDisjoint fun i => Ico (pos i) (pos i + len i) := by
  intro i his j hjs hij
  rw [Function.onFun, disjoint_left]
  intro p hp hp'
  rw [mem_Ico] at hp hp'
  rcases h.apart i his j hjs hij with ha | ha <;> omega

theorem biUnion_eq [DecidableEq ℕ] (h : Tiling s pos len lo hi) :
    s.biUnion (fun i => Ico (pos i) (pos i + len i)) = Ico lo hi := by
  ext p
  simp only [mem_biUnion, mem_Ico]
  constructor
  · rintro ⟨i, his, h₁, h₂⟩
    have := h.inside i his
    omega
  · rintro ⟨h₁, h₂⟩
    exact h.cover p h₁ h₂

theorem sum_len (h : Tiling s pos len lo hi) : ∑ i ∈ s, len i = hi - lo := by
  have hc := card_biUnion fun i his j hjs hij => h.pairwiseDisjoint his hjs hij
  rw [h.biUnion_eq, Nat.card_Ico] at hc
  simpa only [Nat.card_Ico, Nat.add_sub_cancel_left] using hc.symm

/-- The extents behind a point that lies inside no extent. -/
theorem suffix (h : Tiling s pos len lo hi) {c : ℕ} (hlo : lo ≤ c) (hhi : c ≤ hi)
    (hc : ∀ i ∈ s, pos i + len i ≤ c ∨ c ≤ pos i) :
    Tiling (s.filter (c ≤ pos ·)) pos len c hi where
  bounds := hhi
  inside := fun i hi => by
    obtain ⟨his, hci⟩ := mem_filter.mp hi
    exact ⟨hci, (h.inside i his).2⟩
  apart := fun i hi j hj hij =>
    h.apart i (mem_filter.mp hi).1 j (mem_filter.mp hj).1 hij
  cover := fun p h₁ h₂ => by
    obtain ⟨i, his, h₃, h₄⟩ := h.cover p (hlo.trans h₁) h₂
    have hci := hc i his
    exact ⟨i, mem_filter.mpr ⟨his, by omega⟩, h₃, h₄⟩

/-- Behind a nonempty extent, the later extents tile the rest. -/
theorem after (h : Tiling s pos len lo hi) {d : ι} (hd : d ∈ s) (hl : 0 < len d) :
    Tiling (s.filter (pos d < pos ·)) pos len (pos d + len d) hi := by
  have hdin := h.inside d hd
  have hside : ∀ i ∈ s, pos i + len i ≤ pos d + len d ∨ pos d + len d ≤ pos i := by
    intro i his
    by_cases hid : i = d
    · exact .inl (by rw [hid])
    · have ha := h.apart i his d hd hid
      omega
  have he : s.filter (pos d < pos ·) = s.filter (pos d + len d ≤ pos ·) := by
    refine filter_congr fun i his => ⟨fun hlt => ?_, fun hle => by omega⟩
    have hid : i ≠ d := by rintro rfl; omega
    have ha := h.apart i his d hd hid
    omega
  rw [he]
  exact h.suffix (by omega) (by omega) hside

/-- The first point of a nonempty tiling is the position of an extent. -/
theorem exists_pos_eq_lo (h : Tiling s pos len lo hi) (hlt : lo < hi) : ∃ i ∈ s, pos i = lo := by
  obtain ⟨i, his, h₁, _⟩ := h.cover lo le_rfl hlt
  exact ⟨i, his, le_antisymm h₁ (h.inside i his).1⟩

end Tiling
