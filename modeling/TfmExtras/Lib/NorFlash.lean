import Mathlib.Data.List.GetD
import Mathlib.Tactic.Ring

/-! A NOR flash device as rows of cells. A cell is erased or holds the byte programmed
into it since the last erase of its block; reading an erased cell yields the erase value. -/

namespace NorFlash

abbrev Cell := Option UInt8

/-- Erase blocks by number. A missing row or cell is erased. -/
structure Flash where
  rows : List (List Cell)
deriving DecidableEq, Repr

/-! ## One block -/

def rowRead (ev : UInt8) : Nat → List Cell → List UInt8
  | 0, _ => []
  | n + 1, row => (row.headD none).getD ev :: rowRead ev n row.tail

def overlay : List UInt8 → List Cell → List Cell
  | [], row => row
  | d :: ds, row => some d :: overlay ds row.tail

def rowWrite (data : List UInt8) : Nat → List Cell → List Cell
  | 0, row => overlay data row
  | off + 1, row => row.headD none :: rowWrite data off row.tail

def setRow (row : List Cell) : Nat → List (List Cell) → List (List Cell)
  | 0, rows => row :: rows.tail
  | n + 1, rows => rows.headD [] :: setRow row n rows.tail

theorem tail_getD {α : Type} (l : List α) (i : Nat) (d : α) :
    l.tail.getD i d = l.getD (i + 1) d := by
  cases l <;> rfl

theorem eq_of_getD {xs ys : List UInt8} (hl : xs.length = ys.length)
    (h : ∀ i < xs.length, xs.getD i 0 = ys.getD i 0) : xs = ys := by
  apply List.ext_getElem hl
  intro i hx hy
  simpa [List.getD_eq_getElem?_getD, hx, hy] using h i hx

theorem rowRead_length (ev : UInt8) (n : Nat) (row : List Cell) :
    (rowRead ev n row).length = n := by
  induction n generalizing row with
  | zero => rfl
  | succ n ih => simp only [rowRead, List.length_cons, ih]

theorem rowRead_getD (ev : UInt8) {n i : Nat} (h : i < n) (row : List Cell) :
    (rowRead ev n row).getD i 0 = (row.getD i none).getD ev := by
  induction n generalizing i row with
  | zero => omega
  | succ n ih =>
    cases i with
    | zero => cases row <;> rfl
    | succ i =>
      have hi : i < n := by omega
      rw [rowRead, List.getD_cons_succ, ih hi, tail_getD]

theorem overlay_getD (data : List UInt8) (row : List Cell) (o : Nat) :
    (overlay data row).getD o none =
      if o < data.length then some (data.getD o 0) else row.getD o none := by
  induction data generalizing row o with
  | nil => simp [overlay]
  | cons d ds ih =>
    cases o with
    | zero => simp [overlay]
    | succ o =>
      rw [overlay, List.getD_cons_succ, List.getD_cons_succ, ih, tail_getD]
      simp only [List.length_cons, Nat.add_lt_add_iff_right]

theorem rowWrite_getD (data : List UInt8) (off : Nat) (row : List Cell) (o : Nat) :
    (rowWrite data off row).getD o none =
      if off ≤ o ∧ o < off + data.length then some (data.getD (o - off) 0)
      else row.getD o none := by
  induction off generalizing row o with
  | zero => simpa [rowWrite] using overlay_getD data row o
  | succ off ih =>
    cases o with
    | zero => cases row <;> simp [rowWrite]
    | succ o =>
      have hc : (off + 1 ≤ o + 1 ∧ o + 1 < off + 1 + data.length) ↔
          (off ≤ o ∧ o < off + data.length) := by omega
      rw [rowWrite, List.getD_cons_succ, ih, Nat.add_sub_add_right, tail_getD]
      simp only [hc]

theorem setRow_getD (row : List Cell) (n : Nat) (rows : List (List Cell)) (b : Nat) :
    (setRow row n rows).getD b [] = if b = n then row else rows.getD b [] := by
  induction n generalizing rows b with
  | zero =>
    cases b with
    | zero => rfl
    | succ b => cases rows <;> simp [setRow]
  | succ n ih =>
    cases b with
    | zero => cases rows <;> simp [setRow]
    | succ b =>
      rw [setRow, List.getD_cons_succ, ih, tail_getD]
      simp only [Nat.add_right_cancel_iff]

theorem setRow_setRow (row row' : List Cell) (n : Nat) (rows : List (List Cell)) :
    setRow row n (setRow row' n rows) = setRow row n rows := by
  induction n generalizing rows with
  | zero => rfl
  | succ n ih => rw [setRow, setRow, setRow, List.headD_cons, List.tail_cons, ih]

namespace Flash

/-! ## The device -/

def row (fl : Flash) (b : Nat) : List Cell := fl.rows.getD b []

def cell (fl : Flash) (b o : Nat) : Cell := (fl.row b).getD o none

def byte (fl : Flash) (ev : UInt8) (b o : Nat) : UInt8 := (fl.cell b o).getD ev

def read (fl : Flash) (ev : UInt8) (b o n : Nat) : List UInt8 := rowRead ev n ((fl.row b).drop o)

def write (fl : Flash) (b o : Nat) (data : List UInt8) : Flash :=
  ⟨setRow (rowWrite data o (fl.row b)) b fl.rows⟩

def erase (fl : Flash) (b : Nat) : Flash := ⟨setRow [] b fl.rows⟩

variable (fl : Flash) (ev : UInt8)

@[simp] theorem read_length (b o n : Nat) : (fl.read ev b o n).length = n := rowRead_length ev n _

theorem read_getD {b o n i : Nat} (h : i < n) :
    (fl.read ev b o n).getD i 0 = fl.byte ev b (o + i) := by
  rw [read, rowRead_getD ev h]
  simp [byte, cell, List.getD_eq_getElem?_getD]

theorem cell_write (b o : Nat) (data : List UInt8) (b' o' : Nat) :
    (fl.write b o data).cell b' o' =
      if b' = b ∧ o ≤ o' ∧ o' < o + data.length then some (data.getD (o' - o) 0)
      else fl.cell b' o' := by
  rw [cell, row, write, setRow_getD]
  by_cases hb : b' = b
  · subst hb
    rw [if_pos rfl, rowWrite_getD, cell]
    simp only [true_and]
  · rw [if_neg hb, if_neg (fun h => hb h.1), cell, row]

theorem cell_erase (b b' o' : Nat) :
    (fl.erase b).cell b' o' = if b' = b then none else fl.cell b' o' := by
  rw [cell, row, erase, setRow_getD]
  by_cases hb : b' = b
  · simp only [hb, if_true, List.getD_nil]
  · rw [if_neg hb, if_neg hb, cell, row]

/-- An erased block stays as it is when it is erased again. -/
theorem erase_erase (b : Nat) : (fl.erase b).erase b = fl.erase b :=
  congrArg Flash.mk (setRow_setRow [] [] b fl.rows)

variable {fl ev}

theorem byte_congr {fl' : Flash} {b o : Nat} (h : fl'.cell b o = fl.cell b o) :
    fl'.byte ev b o = fl.byte ev b o := by rw [byte, byte, h]

theorem read_ext {fl' : Flash} {b o n : Nat} {bs : List UInt8} (hl : bs.length = n)
    (h : ∀ i < n, fl'.byte ev b (o + i) = bs.getD i 0) : fl'.read ev b o n = bs := by
  apply eq_of_getD ((read_length _ _ _ _ _).trans hl.symm)
  intro i hi
  rw [read_length] at hi
  rw [read_getD fl' ev hi, h i hi]

/-- Two reads of equal bytes, at any two places, are equal. -/
theorem read_congr {fl' : Flash} {b o b' o' n : Nat}
    (h : ∀ i < n, fl'.byte ev b' (o' + i) = fl.byte ev b (o + i)) :
    fl'.read ev b' o' n = fl.read ev b o n :=
  read_ext (read_length _ _ _ _ _) fun i hi => by rw [h i hi, read_getD fl ev hi]

theorem read_append (fl : Flash) (ev : UInt8) (b o n m : Nat) :
    fl.read ev b o (n + m) = fl.read ev b o n ++ fl.read ev b (o + n) m := by
  refine read_ext (by simp) fun i hi => ?_
  by_cases hn : i < n
  · rw [List.getD_append _ _ _ _ (by simpa using hn), read_getD fl ev hn]
  · rw [List.getD_append_right _ _ _ _ (by simpa using hn), read_length,
      read_getD fl ev (by omega), show o + n + (i - n) = o + i by omega]

theorem read_write_self (fl : Flash) (ev : UInt8) (b o : Nat) (data : List UInt8) :
    (fl.write b o data).read ev b o data.length = data :=
  read_ext rfl fun i hi => by
    have hc : b = b ∧ o ≤ o + i ∧ o + i < o + data.length := ⟨rfl, by omega, by omega⟩
    rw [byte, cell_write, if_pos hc, Nat.add_sub_cancel_left, Option.getD_some]

/-! ## What a change leaves alone -/

/-- A set of cells, by block and offset. -/
abbrev Region := Nat → Nat → Prop

/-- The cells of a block from `lo` on and before `hi`. -/
def range (b lo hi : Nat) : Region := fun b' o => b' = b ∧ lo ≤ o ∧ o < hi

/-- The second flash differs from the first only inside the region. -/
def OnlyIn (W : Region) (fl fl' : Flash) : Prop := ∀ b o, ¬ W b o → fl'.cell b o = fl.cell b o

/-- The cells of a region are erased. -/
def Clean (W : Region) (fl : Flash) : Prop := ∀ b o, W b o → fl.cell b o = none

section
variable {W W' : Region} {fl fl' fl'' : Flash}

theorem OnlyIn.refl (W : Region) (fl : Flash) : OnlyIn W fl fl := fun _ _ _ => rfl

theorem OnlyIn.trans (h : OnlyIn W fl fl') (h' : OnlyIn W fl' fl'') : OnlyIn W fl fl'' :=
  fun b o hW => (h' b o hW).trans (h b o hW)

theorem OnlyIn.mono (h : OnlyIn W fl fl') (hW : ∀ b o, W b o → W' b o) : OnlyIn W' fl fl' :=
  fun b o hn => h b o fun hw => hn (hW b o hw)

theorem OnlyIn.union (h : OnlyIn W fl fl') (h' : OnlyIn W' fl' fl'') :
    OnlyIn (fun b o => W b o ∨ W' b o) fl fl'' :=
  (h.mono fun _ _ => .inl).trans (h'.mono fun _ _ => .inr)

theorem OnlyIn.clean (h : OnlyIn W fl fl') (hc : Clean W' fl)
    (hd : ∀ b o, W' b o → ¬ W b o) : Clean W' fl' :=
  fun b o hw => (h b o (hd b o hw)).trans (hc b o hw)

theorem Clean.mono (h : Clean W fl) (hW : ∀ b o, W' b o → W b o) : Clean W' fl :=
  fun b o hw => h b o (hW b o hw)

theorem OnlyIn.byte (h : OnlyIn W fl fl') {b o : Nat} (hn : ¬ W b o) :
    fl'.byte ev b o = fl.byte ev b o := byte_congr (h b o hn)

theorem OnlyIn.read (h : OnlyIn W fl fl') {b o n : Nat} (hn : ∀ i < n, ¬ W b (o + i)) :
    fl'.read ev b o n = fl.read ev b o n := read_congr fun i hi => h.byte (hn i hi)

theorem Clean.byte (h : Clean W fl) {b o : Nat} (hw : W b o) : fl.byte ev b o = ev := by
  rw [Flash.byte, h b o hw, Option.getD_none]

theorem onlyIn_write (fl : Flash) (b o : Nat) (data : List UInt8) :
    OnlyIn (range b o (o + data.length)) fl (fl.write b o data) :=
  fun b' o' h => (cell_write fl b o data b' o').trans (if_neg h)

theorem onlyIn_erase (fl : Flash) (b : Nat) : OnlyIn (fun b' _ => b' = b) fl (fl.erase b) :=
  fun b' o' h => (cell_erase fl b b' o').trans (if_neg h)

theorem clean_erase (fl : Flash) (b : Nat) : Clean (fun b' _ => b' = b) (fl.erase b) :=
  fun b' o' h => (cell_erase fl b b' o').trans (if_pos h)

end

end Flash
end NorFlash
