import WordMachine.Proofs.Range
import Mathlib.Data.List.Forall2

/-!
# The grammar of instructions

Which operand lists an instruction takes (`Accepted`), and what is wrong with all others
(`Refused`). Apart from loads and stores, an instruction has a list of places for operands, each of
which wants an operand of some kind; a list of the wrong length is refused as such, and otherwise
the first operand that does not fit its place is named. A load or store wants a register and then an
address, which is written in one of three ways (`Address`).

* `OperandKind.misfit?_cases`: an operand is read exactly if it fits its place.
* `encode_grammar`: the encoder accepts exactly the grammar of instructions.
-/

namespace WordMachine.Asm

open Text (byte isDigit)

/-! ## Addresses -/

/-- The ways to write an address: an offset with its base register in parentheses, a literal alone,
or a literal and its base register. -/
inductive Address : List Text → Prop
  | indexed {t : Text} {v : Int} {rs : Text} {base : Reg} (ht : IsIndexed t v rs)
      (hv : -2 ^ 63 ≤ v ∧ v < 2 ^ 63) (hbase : Register ("$" ++ rs) base) : Address [t]
  | literal {t : Text} {i : Int} (ht : Literal t i) : Address [t]
  | based {t b : Text} {i : Int} {base : Reg} (ht : Literal t i) (hb : Register b base) :
      Address [t, b]

/-- What is wrong with operands that are no `Address`. -/
inductive BadAddress : List Text → SourceFault → Prop
  | indexedExtra {t : Text} {v : Int} {rs next : Text} {rest : List Text} (ht : IsIndexed t v rs) :
      BadAddress (t :: next :: rest) .operandExtra
  | extra {t second third : Text} {rest : List Text} :
      BadAddress (t :: second :: third :: rest) .operandExtra
  | offset {t : Text} {v : Int} {rs : Text} (ht : IsIndexed t v rs)
      (hv : ¬(-2 ^ 63 ≤ v ∧ v < 2 ^ 63)) : BadAddress [t] (.notMemoryOperand t)
  | indexedBase {t : Text} {v : Int} {rs : Text} (ht : IsIndexed t v rs)
      (hv : -2 ^ 63 ≤ v ∧ v < 2 ^ 63) (hbase : ∀ r, ¬Register ("$" ++ rs) r) :
      BadAddress [t] (.notRegister ("$" ++ rs))
  | neither {t : Text} {rest : List Text} (hrest : rest.length ≤ 1)
      (hindexed : ∀ v rs, ¬IsIndexed t v rs) (hliteral : ∀ i, ¬Literal t i) :
      BadAddress (t :: rest) (.notMemoryOperand t)
  | base {t b : Text} {i : Int} (ht : Literal t i) (hb : ∀ r, ¬Register b r) :
      BadAddress [t, b] (.notRegister b)

/-- An address is read. -/
theorem Address.exists_ok {operands : List Text} (h : Address operands) :
    ∃ place, parseMemory operands = .ok place := by
  cases h with
  | indexed ht hv hbase =>
    have hreg := parseRegister_eq_ok_iff.mpr hbase
    exact ⟨_, by rw [parseMemory_of_isIndexed ht, if_pos hv]; exact congrArg _ hreg⟩
  | literal ht => exact ⟨_, parseMemory_of_literal ht⟩
  | based ht hb =>
    exact ⟨_, by rw [parseMemory_of_literal_register ht, parseRegister_eq_ok_iff.mpr hb]; rfl⟩

/-- What is no address is refused for what is wrong with it. -/
theorem BadAddress.eq_error {operands : List Text} {fault : SourceFault}
    (h : BadAddress operands fault) : parseMemory operands = .error fault := by
  cases h with
  | indexedExtra ht => exact parseMemory_indexed_extra ht _ _
  | extra => exact parseMemory_extra _ _ _ _
  | offset ht hv => rw [parseMemory_of_isIndexed ht, if_neg hv]
  | indexedBase ht hv hbase =>
    have hreg := parseRegister_eq_error hbase
    rw [parseMemory_of_isIndexed ht, if_pos hv]
    exact congrArg _ hreg
  | neither hrest hindexed hliteral => exact parseMemory_eq_error hindexed hliteral hrest
  | base ht hb =>
    rw [parseMemory_of_literal_register ht, parseRegister_eq_error hb]
    rfl

theorem Address.ne_nil {operands : List Text} (h : Address operands) : operands ≠ [] := by
  rintro rfl
  cases h

theorem BadAddress.ne_nil {operands : List Text} {fault : SourceFault}
    (h : BadAddress operands fault) : operands ≠ [] := by
  rintro rfl
  cases h

/-- Operands are an address, or something is wrong with them. -/
theorem address_or_bad (first : Text) (rest : List Text) :
    Address (first :: rest) ∨ ∃ fault, BadAddress (first :: rest) fault := by
  by_cases hindexed : ∃ v rs, IsIndexed first v rs
  · obtain ⟨v, rs, ht⟩ := hindexed
    rcases rest with _ | ⟨next, rest⟩
    · by_cases hv : -2 ^ 63 ≤ v ∧ v < 2 ^ 63
      · by_cases hbase : ∃ r, Register ("$" ++ rs) r
        · obtain ⟨r, hr⟩ := hbase
          exact .inl (.indexed ht hv hr)
        · exact .inr ⟨_, .indexedBase ht hv (not_exists.mp hbase)⟩
      · exact .inr ⟨_, .offset ht hv⟩
    · exact .inr ⟨_, .indexedExtra ht⟩
  · have hindexed : ∀ v rs, ¬IsIndexed first v rs := by simpa using hindexed
    by_cases hliteral : ∃ i, Literal first i
    · obtain ⟨i, ht⟩ := hliteral
      rcases rest with _ | ⟨base, _ | ⟨third, rest⟩⟩
      · exact .inl (.literal ht)
      · by_cases hb : ∃ r, Register base r
        · obtain ⟨r, hr⟩ := hb
          exact .inl (.based ht hr)
        · exact .inr ⟨_, .base ht (not_exists.mp hb)⟩
      · exact .inr ⟨_, .extra⟩
    · rcases rest with _ | ⟨base, _ | ⟨third, rest⟩⟩
      · exact .inr ⟨_, .neither (by simp) hindexed (not_exists.mp hliteral)⟩
      · exact .inr ⟨_, .neither (by simp) hindexed (not_exists.mp hliteral)⟩
      · exact .inr ⟨_, .extra⟩

/-! ## Kinds of operands -/

/-- What an operand can be wanted for. -/
inductive OperandKind where
  | register
  /-- A shift amount. -/
  | amount
  | literal
  /-- The place that a jump or branch goes to. -/
  | place
  /-- An operand that is not looked at. -/
  | any
  deriving DecidableEq, Repr

namespace OperandKind

/-- Can an operand stand where one of this kind is wanted? A shift amount is a literal whose value,
as `parseImmediate` reads it, lies between 0 and 31. -/
def Fits (labels : Labels) : OperandKind → Text → Prop
  | register, t => ∃ r, Register t r
  | amount, t => ∃ i v, Literal t i ∧ parseImmediate t = .ok v ∧ 0 ≤ v ∧ v ≤ 31
  | literal, t => ∃ i, Literal t i
  | place, t => (∃ pc, labels.get? t = some pc) ∨ ∃ i, Literal t i
  | any, _ => True

/-- The fault of an operand that does not fit. -/
def fault : OperandKind → Text → SourceFault
  | register, t => .notRegister t
  | _, t => .notImmediate t

end OperandKind

/-- A shift amount as it is read. -/
def parseAmount (t : Text) : Except SourceFault Int := do
  let v ← parseImmediate t
  if 0 ≤ v ∧ v ≤ 31 then return v else throw (.notImmediate t)

namespace OperandKind

variable (labels : Labels)

/-- The fault that reading an operand of the kind ends with, with the `labels`. -/
def misfit? : OperandKind → Text → Option SourceFault
  | register, t => faultOf (parseRegister t)
  | amount, t => faultOf (parseAmount t)
  | literal, t => faultOf (parseImmediate t)
  | place, t => faultOf (target labels t)
  | any, _ => none

theorem misfit?_literal (t : Text) :
    (∃ i, Literal t i) ∧ literal.misfit? labels t = none ∨
      (¬∃ i, Literal t i) ∧ literal.misfit? labels t = some (.notImmediate t) := by
  by_cases h : ∃ i, Literal t i
  · obtain ⟨i, hi⟩ := h
    exact .inl ⟨⟨i, hi⟩, faultOf_eq_none_iff.mpr ⟨_, hi.parseImmediate_eq_ok⟩⟩
  · exact .inr ⟨h, faultOf_eq_some_iff.mpr (parseImmediate_eq_error (not_exists.mp h))⟩

/-- A shift amount `t` is refused for being no literal, or for its value. -/
theorem misfit?_amount (t : Text) :
    amount.Fits labels t ∧ amount.misfit? labels t = none ∨
      ¬amount.Fits labels t ∧ amount.misfit? labels t = some (.notImmediate t) := by
  rcases misfit?_literal labels t with ⟨⟨i, hi⟩, hread⟩ | ⟨hi, hread⟩
  · obtain ⟨v, hv⟩ := faultOf_eq_none_iff.mp hread
    by_cases hrange : 0 ≤ v ∧ v ≤ 31
    · refine .inl ⟨⟨i, v, hi, hv, hrange⟩, ?_⟩
      rw [misfit?, parseAmount, hv, ok_bind, if_pos hrange]
      rfl
    · refine .inr ⟨?_, ?_⟩
      · rintro ⟨i', v', -, hv', hrange'⟩
        rw [hv, Except.ok.injEq] at hv'
        exact hrange (hv' ▸ hrange')
      · rw [misfit?, parseAmount, hv, ok_bind, if_neg hrange]
        rfl
  · refine .inr ⟨fun ⟨i, v, hliteral, _⟩ => hi ⟨i, hliteral⟩, ?_⟩
    rw [misfit?, parseAmount, faultOf_eq_some_iff.mp hread]
    rfl

/-- **An operand `t` is read exactly if it fits**, and otherwise refused for what it is wanted
for. -/
theorem misfit?_cases (kind : OperandKind) (t : Text) :
    kind.Fits labels t ∧ kind.misfit? labels t = none ∨
      ¬kind.Fits labels t ∧ kind.misfit? labels t = some (kind.fault t) := by
  cases kind with
  | register =>
    by_cases h : ∃ r, Register t r
    · obtain ⟨r, hr⟩ := h
      exact .inl ⟨⟨r, hr⟩, faultOf_eq_none_iff.mpr ⟨r, parseRegister_eq_ok_iff.mpr hr⟩⟩
    · exact .inr ⟨h, faultOf_eq_some_iff.mpr (parseRegister_eq_error (not_exists.mp h))⟩
  | amount => exact misfit?_amount labels t
  | literal => exact misfit?_literal labels t
  | place =>
    cases hget : labels.get? t with
    | some pc =>
      refine .inl ⟨.inl ⟨pc, hget⟩, ?_⟩
      simp only [misfit?, target, hget, faultOf]
    | none =>
      -- What is no label has to be a literal.
      have hfits : place.Fits labels t ↔ literal.Fits labels t := by simp [Fits, hget]
      have hread : place.misfit? labels t = literal.misfit? labels t := by
        simp only [misfit?, target, hget]
        rcases parseImmediate t with fault | v
        · rfl
        · rfl
      rw [hfits, hread]
      exact misfit?_literal labels t
  | any => exact .inl ⟨trivial, rfl⟩

end OperandKind

/-! ## Places for operands -/

/-- The kinds of operands that an instruction wants, one for each of its places; `lw` and `sw` have
no such list. -/
def Mnemonic.operandKinds? : Mnemonic → Option (List OperandKind)
  | add | sub | and | or => some [.register, .register, .register]
  | sll | sra => some [.register, .register, .amount]
  | lw | sw => none
  | bne | blt => some [.register, .register, .place]
  | j | jal | bex => some [.place]
  | addi => some [.register, .register, .literal]
  | jr => some [.register]
  | setx => some [.literal]
  | andi => some [.any, .any, .any]

section Places

variable (labels : Labels)

/-- The fault of the first operand in `pairs` that does not fit its place. -/
def firstMisfit? (pairs : List (OperandKind × Text)) : Option SourceFault :=
  pairs.findSome? fun pair => pair.1.misfit? labels pair.2

/-- The fault of an operand list for the places `kinds`. -/
def placesFault? (kinds : List OperandKind) (operands : List Text) : Option SourceFault :=
  if operands.length = kinds.length then firstMisfit? labels (kinds.zip operands)
  else some (countFault kinds.length operands)

variable {labels} {α β : Type} {x : Except SourceFault α} {f : α → Except SourceFault β}

/-- Operands are read one after the other: first `t`, by `x`, and then the others, by `f`. -/
theorem faultOf_bind {kind : OperandKind} {t : Text} {pairs : List (OperandKind × Text)}
    (hx : faultOf x = kind.misfit? labels t) (hf : ∀ a, faultOf (f a) = firstMisfit? labels pairs) :
    faultOf (x >>= f) = firstMisfit? labels ((kind, t) :: pairs) := by
  rw [firstMisfit?, List.findSome?_cons, ← hx]
  cases x with
  | ok a => exact hf a
  | error fault => rfl

variable {read : List Text → Except SourceFault α}

/-- What reads one operand of the kind `k`, and refuses any list that does not have one. -/
theorem faultOf_one {k : OperandKind}
    (hone : ∀ a, faultOf (read [a]) = firstMisfit? labels [(k, a)])
    (hother : ∀ operands, (∀ a, operands = [a] → False) →
      read operands = .error (countFault 1 operands))
    (operands : List Text) : faultOf (read operands) = placesFault? labels [k] operands := by
  by_cases h : operands.length = 1
  · obtain ⟨a, rfl⟩ := List.length_eq_one_iff.mp h
    exact hone a
  · have hread := hother operands fun a ha => h (ha ▸ rfl)
    rw [hread]
    exact (if_neg h).symm

/-- What reads three operands, and refuses any list that does not have three. -/
theorem faultOf_three {k₁ k₂ k₃ : OperandKind}
    (hthree : ∀ a b c, faultOf (read [a, b, c]) = firstMisfit? labels [(k₁, a), (k₂, b), (k₃, c)])
    (hother : ∀ operands, (∀ a b c, operands = [a, b, c] → False) →
      read operands = .error (countFault 3 operands))
    (operands : List Text) :
    faultOf (read operands) = placesFault? labels [k₁, k₂, k₃] operands := by
  by_cases h : operands.length = 3
  · obtain ⟨a, b, c, rfl⟩ := List.length_eq_three.mp h
    exact hthree a b c
  · have hread := hother operands fun a b c habc => h (habc ▸ rfl)
    rw [hread]
    exact (if_neg h).symm

variable (labels) (operands : List Text)

theorem faultOf_encodeAlu (fn : AluOp) :
    faultOf (encodeAlu fn operands) =
      placesFault? labels [.register, .register, .register] operands := by
  refine faultOf_three (fun d s t => ?_) (encodeAlu.eq_2 fn) operands
  exact faultOf_bind rfl fun rd => faultOf_bind rfl fun rs => faultOf_bind rfl fun rt => rfl

theorem faultOf_encodeShift (fn : AluOp) :
    faultOf (encodeShift fn operands) =
      placesFault? labels [.register, .register, .amount] operands := by
  refine faultOf_three (fun d s amount => ?_) (encodeShift.eq_2 fn) operands
  refine faultOf_bind rfl fun rd => faultOf_bind rfl fun rs => ?_
  rw [firstMisfit?, List.findSome?_singleton, OperandKind.misfit?, parseAmount]
  rcases parseImmediate amount with fault | v
  · rfl
  · rw [ok_bind, ok_bind]
    split
    · rfl
    · rfl

theorem faultOf_encodeBranch (make : Reg → Reg → Int → Instr) (pc : Nat) :
    faultOf (encodeBranch make labels pc operands) =
      placesFault? labels [.register, .register, .place] operands := by
  refine faultOf_three (fun s d place => ?_) (encodeBranch.eq_2 make labels pc) operands
  exact faultOf_bind rfl fun rs => faultOf_bind rfl fun rd => faultOf_bind rfl fun goal => rfl

theorem faultOf_encodeJump (make : Int → Instr) :
    faultOf (encodeJump make labels operands) = placesFault? labels [.place] operands := by
  refine faultOf_one (fun place => ?_) (encodeJump.eq_2 make labels) operands
  exact faultOf_bind rfl fun goal => rfl

theorem faultOf_encodeAddi :
    faultOf (encodeAddi operands) =
      placesFault? labels [.register, .register, .literal] operands := by
  refine faultOf_three (fun d s value => ?_) encodeAddi.eq_2 operands
  exact faultOf_bind rfl fun rd => faultOf_bind rfl fun rs => faultOf_bind rfl fun imm => rfl

theorem faultOf_encodeJr :
    faultOf (encodeJr operands) = placesFault? labels [.register] operands := by
  refine faultOf_one (fun s => ?_) encodeJr.eq_2 operands
  exact faultOf_bind rfl fun rs => rfl

theorem faultOf_encodeSetx :
    faultOf (encodeSetx operands) = placesFault? labels [.literal] operands := by
  refine faultOf_one (fun value => ?_) encodeSetx.eq_2 operands
  exact faultOf_bind rfl fun imm => rfl

theorem faultOf_encodeAndi :
    faultOf (encodeAndi false operands) = placesFault? labels [.any, .any, .any] operands := by
  refine faultOf_three (fun d s value => ?_) (encodeAndi.eq_2 false) operands
  rfl

/-- The fault of an instruction `m` that has the places `kinds` for its operands. -/
theorem faultOf_encode {m : Mnemonic} {kinds : List OperandKind} (hm : m.operandKinds? = some kinds)
    (pc : Nat) :
    faultOf (encode false labels pc ⟨m.name, operands⟩) = placesFault? labels kinds operands := by
  simp only [encode, Mnemonic.ofName?_name]
  cases m <;> cases hm
  case add | sub | and | or => rw [faultOf_map, faultOf_encodeAlu labels]
  case sll | sra => rw [faultOf_map, faultOf_encodeShift labels]
  case bne | blt => rw [faultOf_map, faultOf_encodeBranch]
  case j | jal | bex => rw [faultOf_map, faultOf_encodeJump]
  case addi => rw [faultOf_map, faultOf_encodeAddi labels]
  case jr => rw [faultOf_map, faultOf_encodeJr labels]
  case setx => rw [faultOf_map, faultOf_encodeSetx labels]
  case andi => rw [faultOf_encodeAndi labels]

end Places

section Fitting

variable {labels : Labels} {kinds ks ks' : List OperandKind} {operands os os' : List Text}
  {k : OperandKind} {o : Text}

/-- No fault is found in operands that fit. -/
theorem placesFault?_of_fits (h : List.Forall₂ (OperandKind.Fits labels) kinds operands) :
    placesFault? labels kinds operands = none := by
  rw [placesFault?, if_pos h.length_eq.symm]
  induction h with
  | nil => rfl
  | @cons k o ks os hfits hrest ih =>
    rcases k.misfit?_cases labels o with ⟨-, hnone⟩ | ⟨hmisfit, -⟩
    · rw [List.zip_cons_cons, firstMisfit?, List.findSome?_cons, hnone]
      exact ih
    · exact absurd hfits hmisfit

/-- The first operand `o` that does not fit is found. -/
theorem placesFault?_of_misfit (hbefore : List.Forall₂ (OperandKind.Fits labels) ks os)
    (hmisfit : ¬k.Fits labels o) (hafter : ks'.length = os'.length) :
    placesFault? labels (ks ++ k :: ks') (os ++ o :: os') = some (k.fault o) := by
  have hlength : (os ++ o :: os').length = (ks ++ k :: ks').length := by
    simp [hbefore.length_eq, hafter]
  rw [placesFault?, if_pos hlength]
  clear hlength
  induction hbefore with
  | nil =>
    rcases k.misfit?_cases labels o with ⟨hfits, -⟩ | ⟨-, hsome⟩
    · exact absurd hfits hmisfit
    · rw [List.nil_append, List.nil_append, List.zip_cons_cons, firstMisfit?,
        List.findSome?_cons, hsome]
  | @cons k' o' ks os hfits hrest ih =>
    rcases k'.misfit?_cases labels o' with ⟨-, hnone⟩ | ⟨hmisfit', -⟩
    · rw [List.cons_append, List.cons_append, List.zip_cons_cons, firstMisfit?, List.findSome?_cons,
        hnone]
      exact ih
    · exact absurd hfits hmisfit'

/-- Operands all fit, or there is a first one that does not. -/
theorem fits_or_misfit (labels : Labels) (h : kinds.length = operands.length) :
    List.Forall₂ (OperandKind.Fits labels) kinds operands ∨
      ∃ ks k ks' os o os', kinds = ks ++ k :: ks' ∧ operands = os ++ o :: os' ∧
        List.Forall₂ (OperandKind.Fits labels) ks os ∧ ¬k.Fits labels o ∧
        ks'.length = os'.length := by
  induction kinds generalizing operands with
  | nil =>
    rw [List.length_nil, eq_comm, List.length_eq_zero_iff] at h
    exact .inl (h ▸ .nil)
  | cons k ks ih =>
    rcases operands with _ | ⟨o, os⟩
    · cases h
    · have hlength : ks.length = os.length := Nat.succ.inj h
      by_cases hfits : k.Fits labels o
      · rcases ih hlength with
          hrest | ⟨ks₁, k₁, ks₂, os₁, o₁, os₂, rfl, rfl, hbefore, hmisfit, hafter⟩
        · exact .inl (.cons hfits hrest)
        · exact .inr ⟨k :: ks₁, k₁, ks₂, o :: os₁, o₁, os₂, rfl, rfl, .cons hfits hbefore, hmisfit,
            hafter⟩
      · exact .inr ⟨[], k, ks, [], o, os, rfl, rfl, .nil, hfits, hlength⟩

end Fitting

/-! ## Instructions -/

/-- The operand lists that an instruction takes, with the `labels`. -/
inductive Accepted (labels : Labels) : Mnemonic → List Text → Prop
  /-- Each operand fits its place. -/
  | places {m : Mnemonic} {kinds : List OperandKind} {operands : List Text}
      (hm : m.operandKinds? = some kinds)
      (hfits : List.Forall₂ (OperandKind.Fits labels) kinds operands) : Accepted labels m operands
  /-- A load or store has a register and an address. -/
  | memory {m : Mnemonic} {d : Text} {r : Reg} {operands : List Text} (hm : m = .lw ∨ m = .sw)
      (hd : Register d r) (haddress : Address operands) : Accepted labels m (d :: operands)

/-- What is wrong with an operand list that an instruction does not take. -/
inductive Refused (labels : Labels) : Mnemonic → List Text → SourceFault → Prop
  | missing {m : Mnemonic} {kinds : List OperandKind} {operands : List Text}
      (hm : m.operandKinds? = some kinds) (hlength : operands.length < kinds.length) :
      Refused labels m operands .operandMissing
  | extra {m : Mnemonic} {kinds : List OperandKind} {operands : List Text}
      (hm : m.operandKinds? = some kinds) (hlength : kinds.length < operands.length) :
      Refused labels m operands .operandExtra
  /-- There are as many operands as places, and this one is the first that does not fit. -/
  | misfit {m : Mnemonic} {ks ks' : List OperandKind} {k : OperandKind} {os os' : List Text}
      {o : Text}
      (hm : m.operandKinds? = some (ks ++ k :: ks'))
      (hbefore : List.Forall₂ (OperandKind.Fits labels) ks os) (hmisfit : ¬k.Fits labels o)
      (hafter : ks'.length = os'.length) : Refused labels m (os ++ o :: os') (k.fault o)
  | memoryMissing {m : Mnemonic} {operands : List Text} (hm : m = .lw ∨ m = .sw)
      (hlength : operands.length < 2) : Refused labels m operands .operandMissing
  /-- The register of a load or store is looked at before its address is. -/
  | memoryRegister {m : Mnemonic} {d first : Text} {rest : List Text} (hm : m = .lw ∨ m = .sw)
      (hd : ∀ r, ¬Register d r) : Refused labels m (d :: first :: rest) (.notRegister d)
  | memoryAddress {m : Mnemonic} {d : Text} {r : Reg} {operands : List Text} {fault : SourceFault}
      (hm : m = .lw ∨ m = .sw) (hd : Register d r) (haddress : BadAddress operands fault) :
      Refused labels m (d :: operands) fault

section Instructions

variable {labels : Labels} {m : Mnemonic} {operands : List Text}

/-- An operand list is taken, or something is wrong with it. -/
theorem accepted_or_refused (labels : Labels) (m : Mnemonic) (operands : List Text) :
    Accepted labels m operands ∨ ∃ fault, Refused labels m operands fault := by
  cases hkinds : m.operandKinds? with
  | some kinds =>
    rcases Nat.lt_trichotomy operands.length kinds.length with hlt | heq | hgt
    · exact .inr ⟨_, .missing hkinds hlt⟩
    · rcases fits_or_misfit labels heq.symm with hfits | ⟨ks, k, ks', os, o, os', rfl, rfl, hbefore,
        hmisfit, hafter⟩
      · exact .inl (.places hkinds hfits)
      · exact .inr ⟨_, .misfit hkinds hbefore hmisfit hafter⟩
    · exact .inr ⟨_, .extra hkinds hgt⟩
  | none =>
    have hm : m = .lw ∨ m = .sw := by
      cases m with
      | lw => exact .inl rfl
      | sw => exact .inr rfl
      | _ => cases hkinds
    rcases operands with _ | ⟨d, _ | ⟨first, rest⟩⟩
    · exact .inr ⟨_, .memoryMissing hm (by simp)⟩
    · exact .inr ⟨_, .memoryMissing hm (by simp)⟩
    · by_cases hd : ∃ r, Register d r
      · obtain ⟨r, hr⟩ := hd
        rcases address_or_bad first rest with haddress | ⟨fault, haddress⟩
        · exact .inl (.memory hm hr haddress)
        · exact .inr ⟨_, .memoryAddress hm hr haddress⟩
      · exact .inr ⟨_, .memoryRegister hm (not_exists.mp hd)⟩

/-- A load or store is read from its register to its address. -/
theorem faultOf_encode_memory (hm : m = .lw ∨ m = .sw) (labels : Labels) (pc : Nat) (d : Text)
    (hne : operands ≠ []) :
    faultOf (encode false labels pc ⟨m.name, d :: operands⟩) =
      (faultOf (parseRegister d)).or (faultOf (parseMemory operands)) := by
  obtain ⟨first, rest, rfl⟩ := List.exists_cons_of_ne_nil hne
  have hread : ∀ make : Reg → Reg → Int → Instr,
      faultOf (encodeMemory make (d :: first :: rest)) =
        (faultOf (parseRegister d)).or (faultOf (parseMemory (first :: rest))) := by
    intro make
    rw [encodeMemory]
    rcases parseRegister d with fault | rd
    · rfl
    · rcases parseMemory (first :: rest) with fault | place
      · rfl
      · rfl
  simp only [encode, Mnemonic.ofName?_name]
  rcases hm with rfl | rfl
  · rw [faultOf_map, hread]
  · rw [faultOf_map, hread]

/-- An operand list that is `Accepted` is encoded. -/
theorem Accepted.faultOf_encode (h : Accepted labels m operands) (pc : Nat) :
    faultOf (encode false labels pc ⟨m.name, operands⟩) = none := by
  cases h with
  | places hm hfits => rw [Asm.faultOf_encode labels operands hm, placesFault?_of_fits hfits]
  | memory hm hd haddress =>
    obtain ⟨place, hplace⟩ := haddress.exists_ok
    have hne := haddress.ne_nil
    rw [faultOf_encode_memory hm labels pc _ hne, parseRegister_eq_ok_iff.mpr hd, hplace]
    rfl

/-- An operand list that is `Refused` is not encoded, for the fault that is wrong with it. -/
theorem Refused.faultOf_encode {fault : SourceFault} (h : Refused labels m operands fault)
    (pc : Nat) :
    faultOf (encode false labels pc ⟨m.name, operands⟩) = some fault := by
  cases h with
  | missing hm hlength =>
    rw [Asm.faultOf_encode labels operands hm, placesFault?, if_neg (by omega), countFault,
      if_pos hlength]
  | extra hm hlength =>
    rw [Asm.faultOf_encode labels operands hm, placesFault?, if_neg (by omega), countFault,
      if_neg (by omega)]
  | misfit hm hbefore hmisfit hafter =>
    rw [Asm.faultOf_encode labels _ hm, placesFault?_of_misfit hbefore hmisfit hafter]
  | memoryMissing hm hlength =>
    rcases operands with _ | ⟨d, _ | ⟨first, rest⟩⟩
    · rcases hm with rfl | rfl <;> rfl
    · rcases hm with rfl | rfl <;> rfl
    · simp at hlength
  | memoryRegister hm hd =>
    rw [faultOf_encode_memory hm labels pc _ (by simp), parseRegister_eq_error hd]
    rfl
  | memoryAddress hm hd haddress =>
    rw [faultOf_encode_memory hm labels pc _ haddress.ne_nil, parseRegister_eq_ok_iff.mpr hd,
      haddress.eq_error]
    rfl

end Instructions

/-- What is not the `name` of an instruction is refused, whatever the operands are. -/
theorem faultOf_encode_unknown {name : Text} (hname : ∀ m : Mnemonic, m.name ≠ name) (pc : Nat) :
    faultOf (encode false labels pc ⟨name, operands⟩) = some (.unknownInstruction name) := by
  have hnone : Mnemonic.ofName? name = none := by
    rw [Option.eq_none_iff_forall_ne_some]
    intro m hm
    exact hname m (Mnemonic.name_of_ofName? hm)
  simp only [encode, hnone, faultOf]

/-- **The encoder accepts exactly the grammar of instructions.** A `name` and `operands` are encoded
exactly if the name is that of an instruction that takes the operands. Otherwise they are refused
for what is wrong with them: the name, whatever the operands are, or the operands. -/
theorem encode_grammar (labels : Labels) (pc : Nat) (name : Text) (operands : List Text) :
    ((∃ e, encode false labels pc ⟨name, operands⟩ = .ok e) ↔
      ∃ m : Mnemonic, m.name = name ∧ Accepted labels m operands) ∧
    ∀ fault, encode false labels pc ⟨name, operands⟩ = .error fault ↔
      (∀ m : Mnemonic, m.name ≠ name) ∧ fault = .unknownInstruction name ∨
        ∃ m : Mnemonic, m.name = name ∧ Refused labels m operands fault := by
  simp only [← faultOf_eq_none_iff, ← faultOf_eq_some_iff]
  by_cases hname : ∃ m : Mnemonic, m.name = name
  · obtain ⟨m, rfl⟩ := hname
    have htotal := accepted_or_refused labels m operands
    refine ⟨?_, fun fault => ?_⟩
    · constructor
      · intro hnone
        rcases htotal with haccepted | ⟨fault, hrefused⟩
        · exact ⟨m, rfl, haccepted⟩
        · rw [hrefused.faultOf_encode pc] at hnone
          cases hnone
      · rintro ⟨m', hm', haccepted⟩
        obtain rfl := Mnemonic.name_injective hm'
        exact haccepted.faultOf_encode pc
    · constructor
      · intro hsome
        rcases htotal with haccepted | ⟨fault', hrefused⟩
        · rw [haccepted.faultOf_encode pc] at hsome
          cases hsome
        · rw [hrefused.faultOf_encode pc, Option.some.injEq] at hsome
          exact .inr ⟨m, rfl, hsome ▸ hrefused⟩
      · rintro (⟨hother, -⟩ | ⟨m', hm', hrefused⟩)
        · exact absurd rfl (hother m)
        · obtain rfl := Mnemonic.name_injective hm'
          exact hrefused.faultOf_encode pc
  · have hother : ∀ m : Mnemonic, m.name ≠ name := not_exists.mp hname
    rw [faultOf_encode_unknown hother pc]
    refine ⟨?_, fun fault => ?_⟩
    · refine iff_of_false (Option.some_ne_none _) ?_
      rintro ⟨m, hm, -⟩
      exact hother m hm
    · rw [Option.some.injEq]
      constructor
      · rintro rfl
        exact .inl ⟨hother, rfl⟩
      · rintro (⟨-, rfl⟩ | ⟨m, hm, -⟩)
        · rfl
        · exact absurd hm (hother m)

/-- The register `$32` of a load is named before an operand that is too many. -/
example : encode false {} 0 ⟨"lw", ["$32", "4 ( $2\t)", "$3"]⟩ = .error (.notRegister "$32") := by
  decide +kernel

end WordMachine.Asm
