import WordMachine.Text.Blank
import Mathlib.Tactic

/-!
# Texts of visible bytes

A byte of a visible ASCII character neither begins nor ends the encoding of a white-space character.

* `trim_eq_self`: trimming keeps a text between two such bytes as it is.
* `splitField_append_space`: a field of such bytes ends at the first space.
-/

namespace WordMachine.Text

/-- Is the byte that of an ASCII character that can be seen, from `!` to `~`? -/
def isVisible (b : UInt8) : Bool :=
  33 ≤ b && b < 127

/-- A digit can be seen. -/
theorem isVisible_of_isDigit {b : UInt8} (h : isDigit b = true) : isVisible b = true := by
  have h0 : (byte '0').toNat = 48 := rfl
  have h9 : (byte '9').toNat = 57 := rfl
  simp only [isDigit, isVisible, Bool.and_eq_true, decide_eq_true_eq, UInt8.le_iff_toNat_le,
    UInt8.lt_iff_toNat_lt] at h ⊢
  exact ⟨le_trans (by decide) h.1, lt_of_le_of_lt h.2 (by decide)⟩

/-- A letter can be seen. -/
theorem isVisible_of_isLetter {b : UInt8} (h : isLetter b = true) : isVisible b = true := by
  simp only [isLetter, isVisible, Bool.and_eq_true, Bool.or_eq_true, decide_eq_true_eq,
    UInt8.le_iff_toNat_le, UInt8.lt_iff_toNat_lt] at h ⊢
  rcases h with h | h
  · exact ⟨le_trans (by decide) h.1, lt_of_le_of_lt h.2 (by decide)⟩
  · exact ⟨le_trans (by decide) h.1, lt_of_le_of_lt h.2 (by decide)⟩

/-! ## Codes that begin with no visible byte -/

/-- Do all `codes` begin with a byte that cannot be seen? -/
def startUnseen (codes : List Text) : Bool :=
  codes.all fun code => code.head?.any fun b => !isVisible b

/-- No such code stands where a visible byte `b` does. -/
theorem codeWidth_visible {codes : List Text} (hcodes : startUnseen codes = true) {b : UInt8}
    (hb : isVisible b = true) (t : Text) : codeWidth codes (b :: t) = 0 := by
  have hnone : codes.find? (·.isPrefixOf (b :: t)) = none := by
    rw [List.find?_eq_none]
    intro code hcode
    have hhead := List.all_eq_true.mp hcodes code hcode
    cases code with
    | nil => simp at hhead
    | cons c u =>
      have hcb : c ≠ b := by
        rintro rfl
        simp [hb] at hhead
      simp [List.isPrefixOf, hcb]
  rw [codeWidth, hnone]

/-- The encodings of white space begin with no visible byte. -/
theorem startUnseen_blankCodes : startUnseen blankCodes = true := by
  decide

/-- The encodings of white space end with no visible byte. -/
theorem startUnseen_blankCodesBackward : startUnseen blankCodesBackward = true := by
  decide

/-- Nothing is dropped in front of a visible byte `b`. -/
theorem dropCodes_visible {codes : List Text} (hcodes : startUnseen codes = true) {b : UInt8}
    (hb : isVisible b = true) (t : Text) : dropCodes codes 0 (b :: t) = b :: t := by
  rw [dropCodes, codeWidth_visible hcodes hb]

/-! ## Trimming and fields -/

/-- Trimming at the start keeps a text that begins with a visible byte `b`. -/
theorem trimStart_cons_visible {b : UInt8} (hb : isVisible b = true) (t : Text) :
    trimStart (b :: t) = b :: t :=
  dropCodes_visible startUnseen_blankCodes hb t

/-- Trimming at the end keeps a text that ends with a visible byte `b`. -/
theorem trimEnd_concat_visible {b : UInt8} (hb : isVisible b = true) (t : Text) :
    trimEnd (t ++ [b]) = t ++ [b] := by
  rw [trimEnd, List.reverse_append, List.reverse_singleton, List.singleton_append,
    dropCodes_visible startUnseen_blankCodesBackward hb]
  simp

/-- **Trimming keeps a text that begins and ends with visible bytes.** -/
theorem trim_eq_self {t : Text} (hne : t ≠ []) (hhead : isVisible (t.head hne) = true)
    (hlast : isVisible (t.getLast hne) = true) : trim t = t := by
  have hstart : trimStart t = t := by
    rw [← List.cons_head_tail hne]
    exact trimStart_cons_visible hhead _
  rw [trim, hstart, ← List.dropLast_append_getLast hne]
  exact trimEnd_concat_visible hlast _

/-- Trimming keeps a text of visible bytes. -/
theorem trim_of_visible {t : Text} (ht : ∀ b ∈ t, isVisible b = true) : trim t = t := by
  by_cases hne : t = []
  · subst hne
    rfl
  · exact trim_eq_self hne (ht _ (List.head_mem hne)) (ht _ (List.getLast_mem hne))

/-- A field of visible bytes `s` goes as far as they do. -/
theorem fieldLengthFrom_append {s : Text} (hs : ∀ b ∈ s, isVisible b = true) (n : Nat) (t : Text) :
    fieldLengthFrom n (s ++ t) = fieldLengthFrom (n + s.length) t := by
  induction s generalizing n with
  | nil => rfl
  | cons b s ih =>
    have hb : isVisible b = true := hs b List.mem_cons_self
    have hrest := ih (fun c hc => hs c (List.mem_cons_of_mem b hc)) (n + 1)
    rw [List.cons_append, fieldLengthFrom, if_pos (codeWidth_visible startUnseen_blankCodes hb _),
      hrest, List.length_cons]
    congr 1
    omega

/-- A field ends at a space. -/
theorem fieldLengthFrom_space (n : Nat) (t : Text) : fieldLengthFrom n (byte ' ' :: t) = n := by
  have hwidth : codeWidth blankCodes (byte ' ' :: t) = 1 := rfl
  rw [fieldLengthFrom, hwidth]
  rfl

/-- **The field of visible bytes `s` in front of a space.** -/
theorem splitField_append_space {s : Text} (hs : ∀ b ∈ s, isVisible b = true) (t : Text) :
    splitField (s ++ byte ' ' :: t) = (s, byte ' ' :: t) := by
  rw [splitField, fieldLengthFrom_append hs, fieldLengthFrom_space, Nat.zero_add]
  simp

end WordMachine.Text
