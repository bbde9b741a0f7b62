import WordMachine.Asm.Operand
import WordMachine.Proofs.Numeral

/-!
# Literals

The grammar of immediates, with the integers that they denote (`Literal`). An immediate is first
read as a number of 64 bits; a number that is out of range is read a second time, since the first
reading ends at the digit that takes it out of range, whatever follows.

* `Text.numeral_iff`: a text is read as a number exactly if it is a numeral.
* `literal?_eq_some_iff`: the literals are the texts that denote an integer.
* `parseImmediate_literal`: the two readings together accept exactly the literals, and their value
  is the low 64 bits of the integer.
-/

namespace WordMachine.Text

/-! ## The grammar of numerals -/

/-- The byte `b` is a digit with the value `d`: a decimal digit, or a letter of either case from ten
on. -/
def Digit (b : UInt8) (d : Nat) : Prop :=
  (d < 10 ∧ b.toNat = (byte '0').toNat + d) ∨
    (10 ≤ d ∧ d < 36 ∧
      (b.toNat = (byte 'a').toNat + (d - 10) ∨ b.toNat = (byte 'A').toNat + (d - 10)))

/-- One or more digits of a `base`, with the number that they denote. -/
inductive Numeral (base : Nat) : Text → Nat → Prop
  | digit {b : UInt8} {d : Nat} (hb : Digit b d) (hd : d < base) : Numeral base [b] d
  | concat {t : Text} {n : Nat} (ht : Numeral base t n) {b : UInt8} {d : Nat} (hb : Digit b d)
      (hd : d < base) : Numeral base (t ++ [b]) (n * base + d)

theorem digitValue_eq_iff {b : UInt8} {d : Nat} (hd : d < 36) : digitValue b = d ↔ Digit b d := by
  have h0 : (byte '0').toNat = 48 := rfl
  have h9 : (byte '9').toNat = 57 := rfl
  have ha : (byte 'a').toNat = 97 := rfl
  have hz : (byte 'z').toNat = 122 := rfl
  have hA : (byte 'A').toNat = 65 := rfl
  have hZ : (byte 'Z').toNat = 90 := rfl
  simp only [digitValue, Digit, isDigit, Bool.and_eq_true, decide_eq_true_eq,
    UInt8.le_iff_toNat_le]
  split_ifs <;> omega

theorem isDigitOf_iff {base : Nat} (hbase : base ≤ 36) {b : UInt8} :
    isDigitOf base b = true ↔ ∃ d, Digit b d ∧ d < base := by
  rw [isDigitOf, decide_eq_true_eq]
  constructor
  · intro hb
    exact ⟨digitValue b, (digitValue_eq_iff (by omega)).mp rfl, hb⟩
  · rintro ⟨d, hb, hd⟩
    rw [(digitValue_eq_iff (by omega)).mpr hb]
    exact hd

theorem natOf?_eq_some_iff {base : Nat} {t : Text} {n : Nat} :
    natOf? base t = some n ↔
      t ≠ [] ∧ (∀ b ∈ t, isDigitOf base b = true) ∧ value base t = n := by
  simp [natOf?, and_assoc]

/-- **A text is read as a number exactly if it is a numeral**: `natOf?` computes the number. -/
theorem numeral_iff {base : Nat} (hbase : base ≤ 36) {t : Text} {n : Nat} :
    Numeral base t n ↔ natOf? base t = some n := by
  rw [natOf?_eq_some_iff]
  constructor
  · intro h
    induction h with
    | @digit b d hb hd =>
      have hdigit := (isDigitOf_iff hbase).mpr ⟨d, hb, hd⟩
      have hvalue := (digitValue_eq_iff (by omega)).mpr hb
      simpa [value, hvalue] using hdigit
    | @concat t n _ b d hb hd ih =>
      obtain ⟨-, hdigits, hvalue⟩ := ih
      refine ⟨by simp, ?_, ?_⟩
      · intro c hc
        rcases List.mem_append.mp hc with hc | hc
        · exact hdigits c hc
        · rw [List.mem_singleton.mp hc]
          exact (isDigitOf_iff hbase).mpr ⟨d, hb, hd⟩
      · rw [value_concat, hvalue, (digitValue_eq_iff (by omega)).mpr hb]
  · rintro ⟨hne, hdigits, rfl⟩
    induction t using List.reverseRecOn with
    | nil => exact absurd rfl hne
    | append_singleton t b ih =>
      have hlast : isDigitOf base b = true := hdigits b (by simp)
      have hd : digitValue b < base := by simpa [isDigitOf] using hlast
      have hb : Digit b (digitValue b) := (digitValue_eq_iff (by omega)).mp rfl
      rw [value_concat]
      by_cases ht : t = []
      · subst ht
        show Numeral base [b] (0 * base + digitValue b)
        rw [Nat.zero_mul, Nat.zero_add]
        exact .digit hb hd
      · exact .concat (ih ht fun c hc => hdigits c (List.mem_append_left [b] hc)) hb hd

/-! ## Reading within 64 bits -/

/-- What the outcome of reading digits `t`, with `n` read before, says about them. A number that is
`outOfRange` has a first digit, and nothing is known about what follows. -/
def Tells (base n : Nat) (t : Text) : Except NumberFault Nat → Prop
  | .ok v => (∀ b ∈ t, isDigitOf base b = true) ∧
      t.foldl (fun n b => n * base + digitValue b) n = v
  | .error .malformed => ∃ b ∈ t, isDigitOf base b = false
  | .error .outOfRange => ∃ b rest, t = b :: rest ∧ isDigitOf base b = true

theorem tells_readDigits (base n : Nat) (t : Text) :
    Tells base n t (readDigits false base n t) := by
  induction t generalizing n with
  | nil => exact ⟨fun b hb => absurd hb (by simp), rfl⟩
  | cons b t ih =>
    rw [readDigits, Bool.false_and, if_neg (by decide)]
    by_cases hb : isDigitOf base b = true
    · rw [if_neg (by simp [hb])]
      dsimp only
      split
      · have hrest := ih (n * base + digitValue b)
        rcases hread : readDigits false base (n * base + digitValue b) t with (_ | _) | v
        all_goals rw [hread] at hrest
        · obtain ⟨c, hc, hbad⟩ := hrest
          exact ⟨c, List.mem_cons_of_mem b hc, hbad⟩
        · exact ⟨b, t, rfl, hb⟩
        · exact ⟨List.forall_mem_cons.mpr ⟨hb, hrest.1⟩, hrest.2⟩
      · exact ⟨b, t, rfl, hb⟩
    · rw [if_pos (by simp [hb])]
      exact ⟨b, List.mem_cons_self, Bool.eq_false_of_not_eq_true hb⟩

/-- A number of 64 bits is one, a `malformed` text is none, and a number out of range has a first
digit. -/
theorem boundedNat_cases (base : Nat) (t : Text) :
    (∃ n, boundedNat base t = .ok n ∧ natOf? base t = some n) ∨
      (boundedNat base t = .error .malformed ∧ natOf? base t = none) ∨
      (boundedNat base t = .error .outOfRange ∧
        ∃ b rest, t = b :: rest ∧ isDigitOf base b = true) := by
  rcases t with _ | ⟨b, rest⟩
  · exact .inr (.inl ⟨rfl, rfl⟩)
  · have htells := tells_readDigits base 0 (b :: rest)
    rw [boundedNat, if_neg (by simp)]
    rcases hread : readDigits false base 0 (b :: rest) with (_ | _) | n
    all_goals rw [hread] at htells
    · obtain ⟨c, hc, hbad⟩ := htells
      refine .inr (.inl ⟨rfl, ?_⟩)
      rw [Option.eq_none_iff_forall_ne_some]
      intro n hn
      rw [(natOf?_eq_some_iff.mp hn).2.1 c hc] at hbad
      cases hbad
    · exact .inr (.inr ⟨rfl, htells⟩)
    · exact .inl ⟨n, rfl, natOf?_eq_some_iff.mpr ⟨by simp, htells⟩⟩

/-- An integer of 64 bits is one in the signed range, and a `malformed` text is none. -/
theorem boundedInt_cases (base : Nat) (t : Text) :
    (∃ v, boundedInt (boundedNat base) t = .ok v ∧ intOf? base t = some v ∧
        -2 ^ 63 ≤ v ∧ v < 2 ^ 63) ∨
      (boundedInt (boundedNat base) t = .error .malformed ∧ intOf? base t = none) ∨
      boundedInt (boundedNat base) t = .error .outOfRange := by
  unfold boundedInt intOf?
  rcases splitSign t with ⟨negative, ds⟩
  dsimp only
  rcases boundedNat_cases base ds with ⟨n, hread, hn⟩ | ⟨hread, hn⟩ | ⟨hread, -⟩
  all_goals rw [hread]
  · rw [hn]
    dsimp only
    split
    · rename_i hrange
      refine .inl ⟨signed negative n, rfl, rfl, ?_⟩
      simp only [Bool.or_eq_true, Bool.and_eq_true, decide_eq_true_eq, beq_iff_eq] at hrange
      cases negative with
      | false =>
        have hsmall : n < 0x8000000000000000 := hrange.resolve_right (by simp)
        show -2 ^ 63 ≤ (n : Int) ∧ (n : Int) < 2 ^ 63
        omega
      | true =>
        show -2 ^ 63 ≤ -(n : Int) ∧ -(n : Int) < 2 ^ 63
        omega
    · exact .inr (.inr rfl)
  · rw [hn]
    exact .inr (.inl ⟨rfl, rfl⟩)
  · exact .inr (.inr rfl)

/-- There is no sign in front of the digit `b`. -/
theorem splitSign_of_digit {base : Nat} (hbase : base ≤ 36) {b : UInt8}
    (hb : isDigitOf base b = true) (t : Text) : splitSign (b :: t) = (false, b :: t) := by
  have hdigit : digitValue b < base := by simpa [isDigitOf] using hb
  -- What is no digit in any base has the value 36.
  have hne : ∀ sign : UInt8, digitValue sign = 36 → (b == sign) = false := by
    intro sign hsign
    apply beq_false_of_ne
    rintro rfl
    omega
  simp only [splitSign, hne (byte '+') (by decide), hne (byte '-') (by decide), Bool.false_eq_true,
    if_false]

end WordMachine.Text

namespace WordMachine.Asm

open Text (byte Numeral)

/-! ## Immediates -/

/-- The literals, with the integers that they denote: hexadecimal digits after `0x`, or decimal
digits with an optional sign. -/
inductive Literal : Text → Int → Prop
  | hex {x : UInt8} (hx : x = byte 'x' ∨ x = byte 'X') {ds : Text} {n : Nat}
      (hds : Numeral 16 ds n) : Literal (byte '0' :: x :: ds) n
  | unsigned {ds : Text} {n : Nat} (hds : Numeral 10 ds n) : Literal ds n
  | plus {ds : Text} {n : Nat} (hds : Numeral 10 ds n) : Literal (byte '+' :: ds) n
  | minus {ds : Text} {n : Nat} (hds : Numeral 10 ds n) : Literal (byte '-' :: ds) (-n)

/-- The integer that the literal `t` denotes. -/
def literal? (t : Text) : Option Int :=
  match hexDigits? t with
  | some ds => (Text.natOf? 16 ds).map fun n : Nat => (n : Int)
  | none => Text.intOf? 10 t

theorem hexDigits?_eq_some_iff {t ds : Text} :
    hexDigits? t = some ds ↔ ∃ x, (x = byte 'x' ∨ x = byte 'X') ∧ t = byte '0' :: x :: ds := by
  rcases t with _ | ⟨zero, _ | ⟨x, rest⟩⟩
  · simp [hexDigits?]
  · simp [hexDigits?]
  · simp only [hexDigits?, Option.ite_none_right_eq_some, Option.some.injEq, Bool.and_eq_true,
      Bool.or_eq_true, beq_iff_eq, List.cons.injEq]
    constructor
    · rintro ⟨⟨rfl, hx⟩, rfl⟩
      exact ⟨x, hx, rfl, rfl, rfl⟩
    · rintro ⟨x', hx, rfl, rfl, rfl⟩
      exact ⟨⟨rfl, hx⟩, rfl⟩

theorem hexDigits?_of_sign {sign : UInt8} (hsign : sign ≠ byte '0') {ds : Text} :
    hexDigits? (sign :: ds) = none := by
  rw [Option.eq_none_iff_forall_ne_some]
  intro ds' hds
  obtain ⟨x, -, heq⟩ := hexDigits?_eq_some_iff.mp hds
  exact hsign (List.cons.inj heq).1

/-- A text `t` of decimal digits has no mark `0x` in it. -/
theorem hexDigits?_of_digits {t : Text} (ht : ∀ b ∈ t, Text.isDigit b = true) :
    hexDigits? t = none := by
  rw [Option.eq_none_iff_forall_ne_some]
  intro ds hds
  obtain ⟨x, hx, rfl⟩ := hexDigits?_eq_some_iff.mp hds
  have hdigit : Text.isDigit x = true := ht x (by simp)
  rcases hx with rfl | rfl
  · exact absurd hdigit (by decide)
  · exact absurd hdigit (by decide)

/-- A text `t` of digits is a number without a sign. -/
theorem literal?_of_digits {t : Text} (ht : ∀ b ∈ t, Text.isDigit b = true) :
    literal? t = (Text.natOf? 10 t).map fun n : Nat => (n : Int) := by
  rw [literal?, hexDigits?_of_digits ht]
  rcases t with _ | ⟨b, t⟩
  · rfl
  · have hb : Text.isDigitOf 10 b = true := by
      rw [Text.isDigitOf_ten]
      exact ht b List.mem_cons_self
    show Text.intOf? 10 (b :: t) = _
    rw [Text.intOf?, Text.splitSign_of_digit (by decide) hb]
    rfl

/-- **The literals are the texts that denote an integer**: `literal?` computes it. -/
theorem literal?_eq_some_iff {t : Text} {i : Int} : literal? t = some i ↔ Literal t i := by
  constructor
  · intro h
    rw [literal?] at h
    split at h
    · rename_i ds hds
      obtain ⟨x, hx, rfl⟩ := hexDigits?_eq_some_iff.mp hds
      obtain ⟨n, hn, rfl⟩ := Option.map_eq_some_iff.mp h
      exact .hex hx ((Text.numeral_iff (by decide)).mpr hn)
    · rcases t with _ | ⟨b, ds⟩
      · cases h
      · rw [Text.intOf?, Text.splitSign] at h
        split_ifs at h with hplus hminus
        all_goals obtain ⟨n, hn, rfl⟩ := Option.map_eq_some_iff.mp h
        all_goals replace hn := (Text.numeral_iff (by decide)).mpr hn
        · rw [eq_of_beq hplus]
          exact .plus hn
        · rw [eq_of_beq hminus]
          exact .minus hn
        · exact .unsigned hn
  · intro h
    cases h with
    | hex hx hds =>
      rw [literal?, hexDigits?_eq_some_iff.mpr ⟨_, hx, rfl⟩]
      dsimp only
      rw [(Text.numeral_iff (by decide)).mp hds]
      rfl
    | unsigned hds =>
      have hn := (Text.numeral_iff (by decide)).mp hds
      have hdigits := (Text.natOf?_eq_some_iff.mp hn).2.1
      rw [literal?_of_digits fun b hb => Text.isDigitOf_ten b ▸ hdigits b hb, hn]
      rfl
    | @plus ds n hds =>
      rw [literal?, hexDigits?_of_sign (by decide)]
      show (Text.natOf? 10 ds).map (Text.signed false) = _
      rw [(Text.numeral_iff (by decide)).mp hds]
      rfl
    | @minus ds n hds =>
      rw [literal?, hexDigits?_of_sign (by decide)]
      show (Text.natOf? 10 ds).map (Text.signed true) = _
      rw [(Text.numeral_iff (by decide)).mp hds]
      rfl

/-! ## The two readings -/

/-- A hexadecimal number that is out of range starts with a digit, so that the second reading, which
would take a sign, finds none. -/
theorem wideImmediate?_of_digit {b : UInt8} (hb : Text.isDigitOf 16 b = true) (t : Text) :
    wideImmediate? 16 (b :: t) =
      (Text.natOf? 16 (b :: t)).map fun n : Nat => (n : Int).bmod 0x10000000000000000 := by
  have hminus : b ≠ byte '-' := by
    rintro rfl
    exact absurd hb (by decide)
  rw [wideImmediate?, if_neg (by simpa using hminus), Text.intOf?,
    Text.splitSign_of_digit (by decide) hb, Option.map_map]
  simp only [Function.comp_def, Text.signed, Bool.false_eq_true, if_false]

/-- The second reading, by `wideImmediate?`, decides about a number that is out of range. -/
theorem immediateOf_outOfRange (t : Text) (base : Nat) (ds : Text) :
    immediateOf t base ds (.error .outOfRange) =
      (wideImmediate? base ds).elim (.error (.notImmediate t)) .ok := by
  rw [immediateOf]
  rcases wideImmediate? base ds with _ | v
  · rfl
  · rfl

/-- **The two readings of an immediate together read the literals**, modulo `2 ^ 64` in the signed
range. -/
theorem parseImmediate_eq (t : Text) :
    parseImmediate t = (literal? t).elim (.error (.notImmediate t))
      fun v => .ok (v.bmod 0x10000000000000000) := by
  unfold parseImmediate literal?
  rcases hexDigits? t with _ | ds
  · dsimp only
    rcases Text.boundedInt_cases 10 t with ⟨v, hread, hv, hlow, hhigh⟩ | ⟨hread, hv⟩ | hread
    · have hbmod : v.bmod 0x10000000000000000 = v := by
        rw [Int.bmod_eq_iff (by decide)]
        omega
      rw [hread, hv, Option.elim_some, hbmod]
      rfl
    · rw [hread, hv]
      rfl
    · rw [hread, immediateOf_outOfRange]
      rw [wideImmediate?, if_neg (by simp), Option.elim_map]
      simp only [Function.comp_def]
  · dsimp only
    rcases Text.boundedNat_cases 16 ds with ⟨n, hread, hn⟩ | ⟨hread, hn⟩ | ⟨hread, b, rest, rfl, hb⟩
    · rw [hread, hn, Option.map_some, Option.elim_some]
      rfl
    · rw [hread, hn]
      rfl
    · rw [hread]
      show immediateOf t 16 (b :: rest) (.error .outOfRange) = _
      rw [immediateOf_outOfRange, wideImmediate?_of_digit hb, Option.elim_map, Option.elim_map]
      simp only [Function.comp_def]

/-- **Immediates are the literals.** A text `t` is accepted exactly if it is a literal, of any
length; its value `v` is the integer `i` that it denotes, modulo `2 ^ 64` in the signed range. Any
other text is refused as no immediate. -/
theorem parseImmediate_literal (t : Text) :
    ((∃ v, parseImmediate t = .ok v) ↔ ∃ i, Literal t i) ∧
      (∀ i, Literal t i →
        ∃ v, parseImmediate t = .ok v ∧ v ≡ i [ZMOD 2 ^ 64] ∧ -2 ^ 63 ≤ v ∧ v < 2 ^ 63) ∧
      ((∀ i, ¬Literal t i) → parseImmediate t = .error (.notImmediate t)) := by
  simp only [← literal?_eq_some_iff, parseImmediate_eq]
  rcases literal? t with _ | i
  · simp
  · refine ⟨by simp, ?_, by simp⟩
    rintro _ ⟨⟩
    have hlow := Int.le_bmod (x := i) (m := 0x10000000000000000) (by decide)
    have hhigh := Int.bmod_lt (x := i) (m := 0x10000000000000000) (by decide)
    refine ⟨_, rfl, Int.bmod_emod, ?_, ?_⟩
    · omega
    · omega

/-- A negative number below the signed range, and a text that goes wrong only after it has left the
range. -/
theorem parseImmediate_literal_wide :
    Literal "-18446744073709551617" (-18446744073709551617) ∧
      parseImmediate "-18446744073709551617" = .ok (-1) ∧
      (∀ i, ¬Literal "99999999999999999999x" i) ∧
      parseImmediate "99999999999999999999x" = .error (.notImmediate "99999999999999999999x") := by
  have hwide : Literal "-18446744073709551617" (-18446744073709551617) :=
    literal?_eq_some_iff.mp (by decide +kernel)
  have hnone : ∀ i, ¬Literal "99999999999999999999x" i := by
    intro i hi
    rw [← literal?_eq_some_iff, show literal? "99999999999999999999x" = none by decide +kernel]
      at hi
    cases hi
  obtain ⟨v, hv, hmod, hlow, hhigh⟩ := (parseImmediate_literal "-18446744073709551617").2.1 _ hwide
  have hvalue : v = -1 := by
    unfold Int.ModEq at hmod
    omega
  rw [hvalue] at hv
  exact ⟨hwide, hv, hnone, (parseImmediate_literal "99999999999999999999x").2.2 hnone⟩

end WordMachine.Asm
