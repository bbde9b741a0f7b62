import WordMachine.Proofs.Blank

/-!
# Trimming

Trimming takes away the white space at the ends of a text, and nothing else: a text is its trimmed
form with white space around it, and more white space around it leaves the trimmed form as it is
(`trimmed_iff`). White space in the middle of a text is not reached, neither by trimming nor by the
first field (`trim_append_code`, `splitField_append_code`). This rests on the encodings of white
space: none of them begins or ends another one, so that a sequence of them is taken apart in one way
from either end, and no encoding begins inside another one.
-/

namespace WordMachine.Text

/-! ## Sequences of codes -/

/-- A text that is made of `codes`, one after the other. -/
inductive Coded (codes : List Text) : Text → Prop
  | nil : Coded codes []
  | cons {code t : Text} (hcode : code ∈ codes) (ht : Coded codes t) : Coded codes (code ++ t)

/-- Codes of which none is empty, and none begins another one. -/
def PrefixFree (codes : List Text) : Prop :=
  ∀ code ∈ codes, code ≠ [] ∧ ∀ other ∈ codes, other.isPrefixOf code = true → other = code

instance (codes : List Text) : Decidable (PrefixFree codes) :=
  inferInstanceAs (Decidable (∀ code ∈ codes, _))

section Codes

variable {codes : List Text}

theorem Coded.append {s t : Text} (hs : Coded codes s) (ht : Coded codes t) :
    Coded codes (s ++ t) := by
  induction hs with
  | nil => exact ht
  | cons hcode _ ih =>
    rw [List.append_assoc]
    exact .cons hcode ih

/-- Read from its end, a sequence of `codes` is one of the codes read from their ends. -/
theorem Coded.reverse {t : Text} (ht : Coded codes t) :
    Coded (codes.map List.reverse) t.reverse := by
  induction ht with
  | nil => exact .nil
  | @cons code t hcode _ ih =>
    have hlast : Coded (codes.map List.reverse) (code.reverse ++ []) :=
      .cons (List.mem_map_of_mem hcode) .nil
    rw [List.reverse_append]
    rw [List.append_nil] at hlast
    exact ih.append hlast

/-- A code that is found stands at the start of the text. -/
theorem exists_code_of_codeWidth {t : Text} {width : Nat} (h : codeWidth codes t = width + 1) :
    ∃ code ∈ codes, ∃ rest, t = code ++ rest ∧ code.length = width + 1 := by
  unfold codeWidth at h
  split at h
  · rename_i code hfind
    have hstart := List.find?_some hfind
    obtain ⟨rest, hrest⟩ := List.isPrefixOf_iff_prefix.mp hstart
    exact ⟨code, List.mem_of_find?_eq_some hfind, rest, hrest.symm, h⟩
  · cases h

/-- A `code` is found where it stands, whatever comes after it. -/
theorem codeWidth_code (hfree : PrefixFree codes) {code : Text} (hcode : code ∈ codes) (t : Text) :
    codeWidth codes (code ++ t) = code.length := by
  have hself : code.isPrefixOf (code ++ t) = true :=
    List.isPrefixOf_iff_prefix.mpr (List.prefix_append code t)
  cases hfind : codes.find? (·.isPrefixOf (code ++ t)) with
  | none => exact absurd hself (List.find?_eq_none.mp hfind code hcode)
  | some other =>
    have hstart := List.find?_some hfind
    have hother : other <+: code ++ t := List.isPrefixOf_iff_prefix.mp hstart
    have hmem : other ∈ codes := List.mem_of_find?_eq_some hfind
    -- Of two codes at one place, one begins the other, so they are the same.
    have heq : other = code := by
      rcases List.prefix_or_prefix_of_prefix hother (List.prefix_append code t) with h | h
      · exact (hfree code hcode).2 other hmem (List.isPrefixOf_iff_prefix.mpr h)
      · exact ((hfree other hmem).2 code hcode (List.isPrefixOf_iff_prefix.mpr h)).symm
    rw [codeWidth, hfind, heq]

theorem dropCodes_skip (s t : Text) : dropCodes codes s.length (s ++ t) = dropCodes codes 0 t := by
  induction s with
  | nil => rfl
  | cons b s ih =>
    rw [List.cons_append, List.length_cons, dropCodes]
    exact ih

/-- **The codes `s` in front of a text are dropped.** -/
theorem dropCodes_coded (hfree : PrefixFree codes) {s : Text} (hs : Coded codes s) (t : Text) :
    dropCodes codes 0 (s ++ t) = dropCodes codes 0 t := by
  induction hs with
  | nil => rfl
  | @cons code s hcode _ ih =>
    obtain ⟨b, u, rfl⟩ := List.exists_cons_of_ne_nil (hfree code hcode).1
    have hwidth := codeWidth_code hfree hcode (s ++ t)
    rw [List.cons_append, List.length_cons] at hwidth
    rw [List.append_assoc, List.cons_append, dropCodes, hwidth]
    show dropCodes codes u.length (u ++ (s ++ t)) = _
    rw [dropCodes_skip, ih]

/-- **What is dropped is a sequence `s` of codes.** -/
theorem exists_coded_dropCodes (codes : List Text) (t : Text) :
    ∃ s, Coded codes s ∧ t = s ++ dropCodes codes 0 t := by
  -- The induction goes from byte to byte, so it has to hold inside a code as well.
  have hskip : ∀ (t : Text) (skip : Nat),
      ∃ s, Coded codes s ∧ t.drop skip = s ++ dropCodes codes skip t := by
    intro t
    induction t with
    | nil => exact fun skip => ⟨[], .nil, by simp [dropCodes]⟩
    | cons b t ih =>
      intro skip
      cases skip with
      | succ skip =>
        rw [dropCodes, List.drop_succ_cons]
        exact ih skip
      | zero =>
        rw [dropCodes, List.drop_zero]
        cases hwidth : codeWidth codes (b :: t) with
        | zero => exact ⟨[], .nil, rfl⟩
        | succ width =>
          obtain ⟨code, hcode, rest, heq, hlength⟩ := exists_code_of_codeWidth hwidth
          obtain ⟨s, hs, hdrop⟩ := ih width
          have hrest : t.drop width = rest := by
            have hdrops := congrArg (List.drop (width + 1)) heq
            rwa [List.drop_succ_cons, ← hlength, List.drop_left] at hdrops
          refine ⟨code ++ s, .cons hcode hs, ?_⟩
          show b :: t = code ++ s ++ dropCodes codes width t
          rw [heq, ← hrest, hdrop, List.append_assoc]
  exact hskip t 0

/-- Dropping stops at a byte `b` where no code stands. -/
theorem codeWidth_of_dropCodes {skip : Nat} {t u : Text} {b : UInt8}
    (h : dropCodes codes skip t = b :: u) : codeWidth codes (b :: u) = 0 := by
  induction t generalizing skip with
  | nil => cases h
  | cons c t ih =>
    cases skip with
    | succ skip => exact ih h
    | zero =>
      rw [dropCodes] at h
      cases hwidth : codeWidth codes (c :: t) with
      | zero =>
        rw [hwidth] at h
        rw [← h, hwidth]
      | succ width =>
        rw [hwidth] at h
        exact ih h

/-- There is nothing to drop in front of a text that starts with no code. -/
theorem dropCodes_eq_self {t : Text} (h : ∀ code ∈ codes, ¬code <+: t) :
    dropCodes codes 0 t = t := by
  cases t with
  | nil => rfl
  | cons b t =>
    have hnone : codes.find? (·.isPrefixOf (b :: t)) = none := by
      rw [List.find?_eq_none]
      intro code hcode hstart
      exact h code hcode (List.isPrefixOf_iff_prefix.mp hstart)
    rw [dropCodes, codeWidth, hnone]

/-- **What is left when codes are dropped starts with no `code`.** -/
theorem not_prefix_dropCodes (hfree : PrefixFree codes) {code : Text} (hcode : code ∈ codes)
    (t : Text) :
    ¬code <+: dropCodes codes 0 t := by
  intro hstart
  obtain ⟨rest, hrest⟩ := hstart
  obtain ⟨b, u, hcons⟩ := List.exists_cons_of_ne_nil (hfree code hcode).1
  have hleft : dropCodes codes 0 t = b :: (u ++ rest) := by rw [← hrest, hcons, List.cons_append]
  have hwidth := codeWidth_of_dropCodes hleft
  rw [← List.cons_append, ← hcons, codeWidth_code hfree hcode] at hwidth
  exact (hfree code hcode).1 (List.eq_nil_of_length_eq_zero hwidth)

/-- A byte `c` that is not inside any code, and what comes after it, have no part in a code before
it. -/
theorem codeWidth_append {c : UInt8} (hcodes : ∀ code ∈ codes, c ∉ code.tail) {s : Text}
    (hs : s ≠ []) (t : Text) : codeWidth codes (s ++ c :: t) = codeWidth codes s := by
  have hsame : ∀ code ∈ codes, code.isPrefixOf (s ++ c :: t) = code.isPrefixOf s := by
    intro code hcode
    rw [Bool.eq_iff_iff, List.isPrefixOf_iff_prefix, List.isPrefixOf_iff_prefix]
    refine ⟨fun h => ?_, fun h => h.trans (List.prefix_append s _)⟩
    rcases Nat.lt_or_ge s.length code.length with hlt | hle
    · -- A code that reaches the byte would have it after its first one.
      have hin : s ++ [c] <+: code := by
        refine List.prefix_of_prefix_length_le ?_ h (by simpa using hlt)
        exact ⟨t, by simp⟩
      obtain ⟨rest, rfl⟩ := hin
      obtain ⟨b, u, rfl⟩ := List.exists_cons_of_ne_nil hs
      exact absurd (by simp) (hcodes _ hcode)
    · exact List.prefix_of_prefix_length_le h (List.prefix_append s _) hle
  rw [codeWidth, codeWidth, List.find?_congr hsame]

/-- **Dropping goes past such a byte `c` only if all bytes before it are dropped.** -/
theorem dropCodes_append (hfree : PrefixFree codes) {c : UInt8}
    (hcodes : ∀ code ∈ codes, c ∉ code.tail) (s t : Text) :
    dropCodes codes 0 (s ++ c :: t) =
      if dropCodes codes 0 s = [] then dropCodes codes 0 (c :: t)
      else dropCodes codes 0 s ++ c :: t := by
  obtain ⟨front, hfront, hs⟩ := exists_coded_dropCodes codes s
  have hdrop : dropCodes codes 0 (s ++ c :: t) =
      dropCodes codes 0 (dropCodes codes 0 s ++ c :: t) := by
    conv_lhs => rw [hs, List.append_assoc]
    exact dropCodes_coded hfree hfront _
  rw [hdrop]
  cases hrest : dropCodes codes 0 s with
  | nil => rw [if_pos rfl, List.nil_append]
  | cons b u =>
    have hwidth := codeWidth_append hcodes (List.cons_ne_nil b u) t
    rw [codeWidth_of_dropCodes hrest, List.cons_append] at hwidth
    rw [if_neg (List.cons_ne_nil b u), List.cons_append, dropCodes, hwidth]

end Codes

/-! ## White space -/

/-- A text of white space only. -/
def Blanks (w : Text) : Prop :=
  Coded blankCodes w

theorem prefixFree_blankCodes : PrefixFree blankCodes := by
  decide +kernel

theorem prefixFree_blankCodesBackward : PrefixFree blankCodesBackward := by
  decide +kernel

/-- The first byte `c` of an encoding of white space is not inside another one. -/
theorem head_blankCodes : ∀ code ∈ blankCodes, ∀ c ∈ code.head?, ∀ other ∈ blankCodes,
    c ∉ other.tail := by
  decide +kernel

/-- There is nothing to be seen in white space. -/
theorem Blanks.not_visible {w : Text} (hw : Blanks w) : ∀ b ∈ w, isVisible b = false := by
  have hcodes : ∀ code ∈ blankCodes, ∀ b ∈ code, isVisible b = false := by decide +kernel
  induction hw with
  | nil => exact fun b hb => absurd hb List.not_mem_nil
  | @cons code t hcode _ ih =>
    intro b hb
    rcases List.mem_append.mp hb with hb | hb
    · exact hcodes code hcode b hb
    · exact ih b hb

/-- A byte `b` that can be seen is not in white space. -/
theorem not_mem_of_blanks {w : Text} (hw : Blanks w) {b : UInt8} (hb : isVisible b = true) :
    b ∉ w := by
  intro hmem
  rw [hw.not_visible b hmem] at hb
  cases hb

section Trimming

variable {w : Text}

/-- White space at the start is trimmed. -/
theorem trimStart_blanks_append (hw : Blanks w) (t : Text) : trimStart (w ++ t) = trimStart t :=
  dropCodes_coded prefixFree_blankCodes hw t

/-- White space at the end is trimmed. -/
theorem trimEnd_append_blanks (t : Text) (hw : Blanks w) : trimEnd (t ++ w) = trimEnd t := by
  have hback : Coded blankCodesBackward w.reverse := hw.reverse
  rw [trimEnd, trimEnd, List.reverse_append, dropCodes_coded prefixFree_blankCodesBackward hback]

/-- Trimming at the start reaches white space `w` at the end only if there is nothing else. -/
theorem trimStart_append_blanks (t : Text) (hw : Blanks w) :
    trimStart (t ++ w) = if trimStart t = [] then [] else trimStart t ++ w := by
  have hall : trimStart w = [] := by
    rw [← List.append_nil w, trimStart_blanks_append hw]
    rfl
  cases hw with
  | nil =>
    rw [List.append_nil, List.append_nil]
    split
    · assumption
    · rfl
  | @cons code rest hcode hrest =>
    obtain ⟨c, u, rfl⟩ := List.exists_cons_of_ne_nil (prefixFree_blankCodes code hcode).1
    have hc := head_blankCodes _ hcode c rfl
    have happend := dropCodes_append prefixFree_blankCodes hc t (u ++ rest)
    rw [trimStart, List.cons_append] at hall
    rw [hall] at happend
    exact happend

/-- **White space `w` in front of a text makes no difference to its trimmed form.** -/
theorem trim_blanks_append (hw : Blanks w) (t : Text) : trim (w ++ t) = trim t := by
  rw [trim, trim, trimStart_blanks_append hw]

/-- **White space `w` after a text makes no difference to its trimmed form.** -/
theorem trim_append_blanks (t : Text) (hw : Blanks w) : trim (t ++ w) = trim t := by
  rw [trim, trim, trimStart_append_blanks t hw]
  split
  · rename_i hempty
    rw [hempty]
  · exact trimEnd_append_blanks _ hw

/-- What is trimmed at the end is white space. -/
theorem exists_blanks_trimEnd (t : Text) : ∃ w, Blanks w ∧ t = trimEnd t ++ w := by
  obtain ⟨v, hv, hend⟩ := exists_coded_dropCodes blankCodesBackward t.reverse
  have hback : Coded (blankCodesBackward.map List.reverse) v.reverse := hv.reverse
  have hcodes : blankCodesBackward.map List.reverse = blankCodes := by decide +kernel
  rw [hcodes] at hback
  refine ⟨v.reverse, hback, ?_⟩
  have hreverse := congrArg List.reverse hend
  rwa [List.reverse_reverse, List.reverse_append] at hreverse

/-- **A text is its trimmed form with white space around it.** -/
theorem exists_blanks_trim (t : Text) : ∃ w w', Blanks w ∧ Blanks w' ∧ t = w ++ trim t ++ w' := by
  obtain ⟨w, hw, hstart⟩ := exists_coded_dropCodes blankCodes t
  obtain ⟨w', hw', hend⟩ := exists_blanks_trimEnd (trimStart t)
  refine ⟨w, w', hw, hw', ?_⟩
  rw [List.append_assoc, trim, ← hend]
  exact hstart

/-- A byte `b` that can be seen is not trimmed off. -/
theorem mem_trim_iff {b : UInt8} (hb : isVisible b = true) {t : Text} : b ∈ trim t ↔ b ∈ t := by
  obtain ⟨w, w', hw, hw', ht⟩ := exists_blanks_trim t
  conv_rhs => rw [ht, List.mem_append, List.mem_append]
  simp [not_mem_of_blanks hw hb, not_mem_of_blanks hw' hb]

/-- The text `u` is `t` without the white space at its ends. -/
structure Trimmed (t u : Text) : Prop where
  around : ∃ w w', Blanks w ∧ Blanks w' ∧ t = w ++ u ++ w'
  head : ∀ code ∈ blankCodes, ¬code <+: u
  last : ∀ code ∈ blankCodes, ¬code <:+ u

theorem trimEnd_eq_self {t : Text} (h : ∀ code ∈ blankCodes, ¬code <:+ t) : trimEnd t = t := by
  have hback : ∀ code ∈ blankCodesBackward, ¬code <+: t.reverse := by
    intro code hcode hstart
    obtain ⟨forward, hforward, rfl⟩ := List.mem_map.mp hcode
    exact h forward hforward (List.reverse_prefix.mp hstart)
  rw [trimEnd, dropCodes_eq_self hback, List.reverse_reverse]

theorem not_suffix_trimEnd {code : Text} (hcode : code ∈ blankCodes) (t : Text) :
    ¬code <:+ trimEnd t := by
  intro hend
  refine not_prefix_dropCodes prefixFree_blankCodesBackward (List.mem_map_of_mem hcode) t.reverse ?_
  exact List.reverse_suffix.mp (by rwa [List.reverse_reverse])

/-- **Trimming takes the white space at the ends away, and nothing else**: `trim t` is the only `u`
with this property. -/
theorem trimmed_iff {t u : Text} : Trimmed t u ↔ trim t = u := by
  constructor
  · rintro ⟨⟨w, w', hw, hw', rfl⟩, hhead, hlast⟩
    have hstart : trimStart u = u := dropCodes_eq_self hhead
    rw [trim_append_blanks _ hw', trim_blanks_append hw, trim, hstart, trimEnd_eq_self hlast]
  · rintro rfl
    refine ⟨exists_blanks_trim t, ?_, fun code hcode => not_suffix_trimEnd hcode _⟩
    intro code hcode hstart
    -- What is taken away at the end cannot bring white space to the start.
    have hprefix : trim t <+: trimStart t := by
      obtain ⟨w, -, hend⟩ := exists_blanks_trimEnd (trimStart t)
      exact ⟨w, hend.symm⟩
    exact not_prefix_dropCodes prefixFree_blankCodes hcode t (hstart.trans hprefix)

end Trimming

/-! ## White space in the middle of a text -/

section Middle

variable {w : Text}

/-- No encoding of white space begins with another one, `w`. -/
theorem eq_of_append_mem {t code : Text} (hw : w ∈ blankCodes) (hcode : code ∈ blankCodes)
    (h : code = w ++ t) : t = [] := by
  have hstart : w.isPrefixOf code = true := List.isPrefixOf_iff_prefix.mpr ⟨t, h.symm⟩
  have heq := (prefixFree_blankCodes code hcode).2 w hw hstart
  rw [← heq] at h
  exact List.append_right_eq_self.mp h.symm

/-- A `code` at the end of a text does not reach white space `w` in the middle. -/
theorem suffix_of_suffix_append {code : Text} (hw : w ∈ blankCodes) (hcode : code ∈ blankCodes)
    {s t : Text} (ht : t ≠ []) (h : code <:+ s ++ w ++ t) : code <:+ t := by
  obtain ⟨front, hfront⟩ := h
  rcases List.append_eq_append_iff.mp hfront with ⟨x, hx, rfl⟩ | ⟨y, -, rfl⟩
  · -- The code is `x ++ t`, and `x` ends where the white space does. The first byte of either of
    -- them is not inside the other one, so they are the same, and then nothing is left for `t`.
    rcases List.append_eq_append_iff.mp hx with ⟨a, -, hwhite⟩ | ⟨a, -, rfl⟩
    · cases a with
      | nil => exact absurd (eq_of_append_mem hw hcode (by rw [hwhite, List.nil_append])) ht
      | cons b a =>
        cases x with
        | nil => exact List.suffix_refl t
        | cons c x => exact absurd (by simp [hwhite]) (head_blankCodes _ hcode c rfl w hw)
    · cases a with
      | nil => exact absurd (eq_of_append_mem hw hcode rfl) ht
      | cons b a =>
        obtain ⟨c, u, rfl⟩ := List.exists_cons_of_ne_nil (prefixFree_blankCodes w hw).1
        exact absurd (by simp) (head_blankCodes _ hw c rfl _ hcode)
  · exact List.suffix_append y code

/-- **Trimming does not reach white space `w` in the middle of a text.** -/
theorem trim_append_code (hw : w ∈ blankCodes) {s t : Text} (hs : trimStart s ≠ [])
    (ht : trimEnd t ≠ []) :
    trim (s ++ w ++ t) = trimStart s ++ w ++ trimEnd t := by
  obtain ⟨c, u, rfl⟩ := List.exists_cons_of_ne_nil (prefixFree_blankCodes w hw).1
  have hstart : trimStart (s ++ (c :: u) ++ t) = trimStart s ++ (c :: u) ++ t := by
    have happend := dropCodes_append prefixFree_blankCodes (head_blankCodes _ hw c rfl) s (u ++ t)
    rw [List.append_assoc, List.append_assoc, List.cons_append]
    rw [trimStart] at hs
    rwa [if_neg hs] at happend
  have hend :
      trimEnd (trimStart s ++ (c :: u) ++ trimEnd t) = trimStart s ++ (c :: u) ++ trimEnd t :=
    trimEnd_eq_self fun code hcode hsuffix =>
      not_suffix_trimEnd hcode t (suffix_of_suffix_append hw hcode ht hsuffix)
  obtain ⟨w', hw', hblank⟩ := exists_blanks_trimEnd t
  rw [trim, hstart]
  conv_lhs => rw [hblank]
  rw [← List.append_assoc, trimEnd_append_blanks _ hw', hend]

/-- A field ends at the white space `w` after it, if it does not end before. -/
theorem fieldLengthFrom_append_code (hw : w ∈ blankCodes) (n : Nat) (s t : Text) :
    fieldLengthFrom n (s ++ w ++ t) = fieldLengthFrom n s ∧ fieldLengthFrom n s ≤ n + s.length := by
  obtain ⟨c, u, rfl⟩ := List.exists_cons_of_ne_nil (prefixFree_blankCodes w hw).1
  induction s generalizing n with
  | nil =>
    have hwidth := codeWidth_code prefixFree_blankCodes hw t
    refine ⟨?_, Nat.le_refl n⟩
    rw [List.cons_append] at hwidth
    rw [List.nil_append, List.cons_append]
    exact if_neg (hwidth ▸ Nat.succ_ne_zero u.length)
  | cons b s ih =>
    have hwidth := codeWidth_append (head_blankCodes _ hw c rfl) (List.cons_ne_nil b s) (u ++ t)
    obtain ⟨hlength, hle⟩ := ih (n + 1)
    rw [List.append_assoc, List.cons_append] at hlength
    rw [List.cons_append] at hwidth
    rw [List.append_assoc, List.cons_append, List.cons_append, fieldLengthFrom, hwidth, hlength,
      fieldLengthFrom, List.length_cons]
    refine ⟨rfl, ?_⟩
    split
    · omega
    · omega

/-- **The first field of a text does not reach past white space `w`.** -/
theorem splitField_append_code (hw : w ∈ blankCodes) (s t : Text) :
    splitField (s ++ w ++ t) = ((splitField s).1, (splitField s).2 ++ w ++ t) := by
  obtain ⟨hlength, hle⟩ := fieldLengthFrom_append_code hw 0 s t
  rw [Nat.zero_add] at hle
  rw [splitField, splitField, hlength, List.splitAt_eq, List.splitAt_eq, List.append_assoc,
    List.take_append_of_le_length hle, List.drop_append_of_le_length hle, List.append_assoc]

theorem firstField_append_blanks (hw : Blanks w) (s : Text) :
    firstField (s ++ w) = firstField s := by
  cases hw with
  | nil => rw [List.append_nil]
  | @cons code t hcode _ =>
    rw [← List.append_assoc, firstField, splitField_append_code hcode]
    rfl

end Middle

theorem blanks_return : Blanks [byte '\r'] := by
  have hcode : [byte '\r'] ∈ blankCodes := by decide +kernel
  exact .cons hcode .nil

theorem blanks_space : Blanks [byte ' '] := by
  have hcode : [byte ' '] ∈ blankCodes := by decide +kernel
  exact .cons hcode .nil

end WordMachine.Text
