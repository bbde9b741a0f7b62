import WordMachine.Proofs.Assembly
import WordMachine.Proofs.Emulation

/-!
# Entries found by their program counter

The entry of a program counter is found by halving. In a program whose entries are in order
(`Program.Ordered`), and whose program counters are no further from the one that is looked up than a
64-bit difference can tell (`Program.InReach`), the search ends at the first entry that does not
come before.

* `Program.find?_of_ordered`: the first entry with the program counter is found.
* `Program.lookup_first`: and nothing else is, in any program.
* `Program.find?_of_numbered`: in a program whose entries are numbered from zero this is the entry
  at that position.
-/

namespace WordMachine.Program

/-! ## The search -/

/-- The sign of a 64-bit difference tells which of `a` and `b` comes first, if they are near. -/
theorem precedes_iff {a b : Int} (hlow : -2 ^ 63 ≤ a - b) (hhigh : a - b < 2 ^ 63) :
    precedes a b = true ↔ a < b := by
  rw [precedes, decide_eq_true_iff, Int.bmod_eq_of_le (by omega) (by omega)]
  omega

/-- What is known when the range from `i` to `j` is left: the entries before it come before `pc`,
and those after it do not. -/
structure Brackets (entries : Array Entry) (pc : Int) (i j : Nat) : Prop where
  le : i ≤ j
  le_size : j ≤ entries.size
  left : ∀ k e, entries[k]? = some e → k < i → e.pc < pc
  right : ∀ k e, entries[k]? = some e → j ≤ k → pc ≤ e.pc

section Search

variable {entries : Array Entry} {pc : Int}

/-- The range before the first step, from `0` to `entries.size`. -/
theorem brackets_whole (entries : Array Entry) (pc : Int) : Brackets entries pc 0 entries.size where
  le := Nat.zero_le _
  le_size := Nat.le_refl _
  left := fun _ _ _ hk => absurd hk (Nat.not_lt_zero _)
  right := by
    intro k e he hk
    rw [Array.getElem?_eq_none hk] at he
    cases he

variable (hmono : ∀ {k l : Nat} {e e' : Entry}, k ≤ l → entries[k]? = some e →
    entries[l]? = some e' → e.pc ≤ e'.pc)
  (hnear : ∀ {k : Nat} {e : Entry}, entries[k]? = some e → -2 ^ 63 ≤ e.pc - pc ∧ e.pc - pc < 2 ^ 63)

include hmono in
/-- The range right of an entry `e` that comes before `pc`. -/
theorem Brackets.upper {i j mid : Nat} {e : Entry} (h : Brackets entries pc i j) (hmid : mid < j)
    (he : entries[mid]? = some e) (hlt : e.pc < pc) : Brackets entries pc (mid + 1) j where
  le := hmid
  le_size := h.le_size
  left := by
    intro k e' he' hk
    have hle := hmono (Nat.le_of_lt_succ hk) he' he
    omega
  right := h.right

include hmono in
/-- The range left of an entry `e` that does not come before `pc`. -/
theorem Brackets.lower {i j mid : Nat} {e : Entry} (h : Brackets entries pc i j) (hlow : i ≤ mid)
    (hmid : mid < j) (he : entries[mid]? = some e) (hge : pc ≤ e.pc) :
    Brackets entries pc i mid where
  le := hlow
  le_size := Nat.le_trans (Nat.le_of_lt hmid) h.le_size
  left := h.left
  right := by
    intro k e' he' hk
    have hle := hmono hk he he'
    omega

include hmono hnear in
/-- The search leaves an empty range, if there is `fuel` for each place of it. -/
theorem Brackets.search (fuel : Nat) : ∀ i j, Brackets entries pc i j → j - i ≤ fuel →
    Brackets entries pc (searchFrom entries pc fuel i j) (searchFrom entries pc fuel i j) := by
  induction fuel with
  | zero =>
    intro i j h hfuel
    have hle := h.le
    obtain rfl : i = j := by omega
    exact h
  | succ fuel ih =>
    intro i j h hfuel
    have hle := h.le
    have hsize := h.le_size
    rw [searchFrom]
    by_cases hlt : i < j
    · have hbound : (i + j) / 2 < entries.size := by omega
      have he : entries[(i + j) / 2]? = some entries[(i + j) / 2] :=
        Array.getElem?_eq_getElem hbound
      have hprecedes := precedes_iff (hnear he).1 (hnear he).2
      rw [if_pos hlt]
      simp only [he]
      split
      · rename_i hbefore
        exact ih _ _ (h.upper hmono (by omega) he (hprecedes.mp hbefore)) (by omega)
      · rename_i hbefore
        have hge : pc ≤ entries[(i + j) / 2].pc := by
          rw [hprecedes] at hbefore
          omega
        exact ih _ _ (h.lower hmono (by omega) (by omega) he hge) (by omega)
    · obtain rfl : i = j := by omega
      rw [if_neg hlt]
      exact h

end Search

/-! ## Programs in order -/

/-- The entries are in the order of their program counters, which may repeat. -/
def Ordered (p : Program) : Prop :=
  p.entries.toList.Pairwise fun e e' => e.pc ≤ e'.pc

/-- No entry is further from `pc` than a 64-bit difference can tell. -/
def InReach (p : Program) (pc : Int) : Prop :=
  ∀ e ∈ p.entries, -2 ^ 63 ≤ e.pc - pc ∧ e.pc - pc < 2 ^ 63

theorem Ordered.le {p : Program} (hp : p.Ordered) {k l : Nat} {e e' : Entry} (hkl : k ≤ l)
    (he : p.entries[k]? = some e) (he' : p.entries[l]? = some e') : e.pc ≤ e'.pc := by
  obtain ⟨hk, rfl⟩ := Array.getElem?_eq_some_iff.mp he
  obtain ⟨hl, rfl⟩ := Array.getElem?_eq_some_iff.mp he'
  rcases Nat.lt_or_eq_of_le hkl with hlt | rfl
  · exact List.pairwise_iff_getElem.mp hp k l hk hl hlt
  · exact Int.le_refl _

theorem InReach.near {p : Program} {pc : Int} (h : p.InReach pc) {k : Nat} {e : Entry}
    (he : p.entries[k]? = some e) : -2 ^ 63 ≤ e.pc - pc ∧ e.pc - pc < 2 ^ 63 :=
  h e (Array.mem_of_getElem? he)

/-- The entry `e` at `r` is the first with `pc` if no earlier entry has it. -/
theorem first_of_left {entries : Array Entry} {pc : Int} {r : Nat} {e : Entry}
    (he : entries[r]? = some e) (hpc : e.pc = pc)
    (hleft : ∀ (k : Nat) (e' : Entry), entries[k]? = some e' → k < r → e'.pc ≠ pc) :
    entries.find? (fun e => e.pc = pc) = some e := by
  obtain ⟨hr, hvalue⟩ := Array.getElem?_eq_some_iff.mp he
  rw [Array.find?_eq_some_iff_getElem]
  refine ⟨decide_eq_true hpc, r, hr, hvalue, ?_⟩
  intro k hk
  have hne := hleft k _ (Array.getElem?_eq_getElem (Nat.lt_trans hk hr)) hk
  simpa using hne

/-- There is no first entry with `pc` if no entry has it. -/
theorem first_eq_none {entries : Array Entry} {pc : Int}
    (h : ∀ (k : Nat) (e : Entry), entries[k]? = some e → e.pc ≠ pc) :
    entries.find? (fun e => e.pc = pc) = none := by
  rw [Array.find?_eq_none]
  intro e he
  obtain ⟨k, hk⟩ := Array.mem_iff_getElem?.mp he
  simpa using h k e hk

/-- **In a program in order, the entry that is found is the first with its program counter**, if
`pc` is in reach. -/
theorem find?_of_ordered {p : Program} (hp : p.Ordered) {pc : Int} (hreach : p.InReach pc) :
    p.find? pc = p.entries.find? fun e => e.pc = pc := by
  have hbrackets := Brackets.search hp.le hreach.near p.entries.size 0 p.entries.size
    (brackets_whole _ _) (Nat.sub_le _ _)
  unfold find?
  generalize searchFrom p.entries pc p.entries.size 0 p.entries.size = r at hbrackets
  have hleft := hbrackets.left
  split
  · rename_i e he
    split
    · rename_i hpc
      exact (first_of_left he hpc fun k e' he' hk => (hleft k e' he' hk).ne).symm
    · rename_i hne
      -- The entry at `r` is already too great, and so are all that follow it.
      symm
      apply first_eq_none
      intro k e' he'
      have hge := hbrackets.right r e he (Nat.le_refl r)
      rcases Nat.lt_or_ge k r with hk | hk
      · exact (hleft k e' he' hk).ne
      · have hle := hp.le hk he he'
        omega
  · rename_i hnone
    symm
    apply first_eq_none
    intro k e' he'
    have hsize := Array.getElem?_eq_none_iff.mp hnone
    have hk := (Array.getElem?_eq_some_iff.mp he').1
    exact (hleft k e' he' (by omega)).ne

/-- An entry `e` that is found has the program counter `pc`, whatever the order of the entries
is. -/
theorem pc_of_find? {p : Program} {pc : Int} {e : Entry} (h : p.find? pc = some e) : e.pc = pc := by
  unfold find? at h
  split at h
  · split at h
    · rename_i hpc
      cases h
      exact hpc
    · cases h
  · cases h

/-- **Look-up finds the first entry with a program counter, and no other**: in a program in order it
gives the first entry with the program counter, or none if there is none, and in any program it
gives only entries with the program counter. Only a program counter that some entry has needs to be
in reach, so it is enough that the entries are near each other. -/
theorem lookup_first (p : Program) (pc : Int) :
    (p.Ordered → ((∃ e ∈ p.entries, e.pc = pc) → p.InReach pc) →
      p.find? pc = p.entries.find? fun e => e.pc = pc) ∧
    ∀ e, p.find? pc = some e → e ∈ p.entries ∧ e.pc = pc := by
  have hsound : ∀ e, p.find? pc = some e → e ∈ p.entries ∧ e.pc = pc := fun e he =>
    ⟨mem_of_find? he, pc_of_find? he⟩
  refine ⟨fun hp hreach => ?_, hsound⟩
  by_cases hsome : ∃ e ∈ p.entries, e.pc = pc
  · exact find?_of_ordered hp (hreach hsome)
  · have habsent : ∀ (k : Nat) (e : Entry), p.entries[k]? = some e → e.pc ≠ pc := fun k e he hpc =>
      hsome ⟨e, Array.mem_of_getElem? he, hpc⟩
    rw [first_eq_none habsent, Option.eq_none_iff_forall_ne_some]
    intro e he
    exact hsome ⟨e, hsound e he⟩

/-- The first of two entries at zero, between the least and the greatest program counter of 64
bits. -/
theorem lookup_first_wide :
    let p : Program :=
      { entries := #[⟨1, -2 ^ 63, [], 7⟩, ⟨2, 0, [], 8⟩, ⟨3, 0, [], 9⟩, ⟨4, 2 ^ 63 - 1, [], 7⟩] }
    p.Ordered ∧ p.InReach 0 ∧ p.find? 0 = some ⟨2, 0, [], 8⟩ ∧ p.find? 1 = none := by
  intro p
  have hordered : p.Ordered := by
    unfold Ordered
    decide
  have hreach : p.InReach 0 := by
    intro e he
    simp only [p, List.mem_toArray, List.mem_cons, List.not_mem_nil, or_false] at he
    rcases he with rfl | rfl | rfl | rfl <;> decide
  have habsent : ¬∃ e ∈ p.entries, e.pc = 1 := by
    simp [p]
  refine ⟨hordered, hreach, ?_, ?_⟩
  · rw [(lookup_first p 0).1 hordered fun _ => hreach]
    decide
  · rw [(lookup_first p 1).1 hordered fun h => absurd h habsent]
    decide

/-! ## Programs numbered from zero -/

/-- Each entry has its position as program counter, from zero on. -/
def Numbered (p : Program) : Prop :=
  ∀ (i : Nat) (e : Entry), p.entries[i]? = some e → e.pc = i

theorem Numbered.ordered {p : Program} (hp : p.Numbered) : p.Ordered := by
  apply List.pairwise_iff_getElem.mpr
  intro k l hk hl hkl
  have hpc := hp k _ (Array.getElem?_eq_getElem hk)
  have hpc' := hp l _ (Array.getElem?_eq_getElem hl)
  simp only [Array.getElem_toList]
  omega

/-- **In a numbered program, the entry of `pc` is the one at that position.** -/
theorem find?_of_numbered {p : Program} (hp : p.Numbered) (hsize : p.entries.size ≤ 2 ^ 63)
    {pc : Nat} (hpc : pc < 2 ^ 63) : p.find? pc = p.entries[pc]? := by
  have hreach : p.InReach pc := by
    intro e he
    obtain ⟨k, hk⟩ := Array.mem_iff_getElem?.mp he
    have hlt := (Array.getElem?_eq_some_iff.mp hk).1
    rw [hp k e hk]
    omega
  have hplace : ∀ (k : Nat) (e : Entry), p.entries[k]? = some e → k ≠ pc → e.pc ≠ (pc : Int) := by
    intro k e he hk
    rw [hp k e he]
    omega
  rw [find?_of_ordered hp.ordered hreach]
  cases he : p.entries[pc]? with
  | some e => exact first_of_left he (hp pc e he) fun k e' he' hk => hplace k e' he' hk.ne
  | none =>
    apply first_eq_none
    intro k e hk
    apply hplace k e hk
    rintro rfl
    rw [he] at hk
    cases hk

/-- The program of an image is numbered. -/
theorem numbered_ofImage (words : Array Word) : (ofImage words).Numbered := by
  intro i e he
  simp only [ofImage, List.getElem?_toArray, List.getElem?_map, List.getElem?_zipIdx,
    Option.map_eq_some_iff] at he
  obtain ⟨⟨w, k⟩, ⟨w', -, hk⟩, rfl⟩ := he
  cases hk
  simp

/-- The program of a source is numbered. -/
theorem numbered_of_parse {asm : Assembler} {input : Input} {p : Program}
    (h : (asm.parse input).result = .ok p) : p.Numbered := by
  intro i e he
  have hpcs := (Assembler.assembled_of_parse h).map_pc_entries (Asm.Scan.numbered_ofInput input)
  have hi := congrArg (·[i]?) hpcs
  have hlist : p.entries.toList[i]? = some e := by
    rw [Array.getElem?_toList, he]
  simp only [List.getElem?_map, hlist, Option.map_some] at hi
  obtain ⟨k, hk, hpc⟩ := Option.map_eq_some_iff.mp hi.symm
  have hki : i = k := by
    simpa using (List.getElem?_eq_some_iff.mp hk).2
  rw [← hpc, hki]
  rfl

end WordMachine.Program
