/-!
# Tables

A finite table holds at most one value under each key; `insert` replaces the value that was there.
-/

namespace WordMachine

/-- Keys with their values. -/
structure Table (κ ν : Type) where
  entries : List (κ × ν) := []
  deriving DecidableEq, Repr

namespace Table

variable {κ ν : Type} [BEq κ]

/-- The value under the key `k`. -/
def get? (t : Table κ ν) (k : κ) : Option ν :=
  t.entries.lookup k

/-- The table without the key `k`. -/
def erase (t : Table κ ν) (k : κ) : Table κ ν :=
  ⟨t.entries.filter fun e => e.1 != k⟩

/-- The table with the value `v` under the key `k`. -/
def insert (t : Table κ ν) (k : κ) (v : ν) : Table κ ν :=
  ⟨(k, v) :: (t.erase k).entries⟩

/-! ## Look-up after a change -/

variable [LawfulBEq κ]

@[simp]
theorem get?_erase_self (t : Table κ ν) (k : κ) : (t.erase k).get? k = none := by
  simp only [get?, erase]
  induction t.entries with
  | nil => rfl
  | cons e es ih =>
    obtain ⟨a, v⟩ := e
    by_cases h : a = k
    · rw [List.filter_cons_of_neg (by simp [h])]
      exact ih
    · rw [List.filter_cons_of_pos (by simp [h]), List.lookup_cons, beq_false_of_ne (Ne.symm h)]
      exact ih

theorem get?_erase_of_ne (t : Table κ ν) {k l : κ} (h : l ≠ k) : (t.erase k).get? l = t.get? l := by
  simp only [get?, erase]
  induction t.entries with
  | nil => rfl
  | cons e es ih =>
    obtain ⟨a, v⟩ := e
    by_cases ha : a = k
    · rw [List.filter_cons_of_neg (by simp [ha]), ih, List.lookup_cons, ha, beq_false_of_ne h]
    · rw [List.filter_cons_of_pos (by simp [ha]), List.lookup_cons, List.lookup_cons, ih]

@[simp]
theorem get?_insert_self (t : Table κ ν) (k : κ) (v : ν) : (t.insert k v).get? k = some v := by
  simp [get?, insert]

theorem get?_insert_of_ne (t : Table κ ν) {k l : κ} (v : ν) (h : l ≠ k) :
    (t.insert k v).get? l = t.get? l := by
  have hl : (l == k) = false := by simpa using h
  rw [← get?_erase_of_ne t h]
  simp [get?, insert, List.lookup_cons, hl]

end Table

end WordMachine
