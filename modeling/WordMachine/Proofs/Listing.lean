import WordMachine.Program.Listing
import WordMachine.Proofs.Disassembly
import WordMachine.Proofs.FreshLabel
import WordMachine.Proofs.Lookup
import WordMachine.Proofs.Sink

/-!
# Listings

The listing of an assembled program shows each of its words at its program counter, after the labels
of that place in ascending order.

* `Program.labelsAt_of_perm`, `Program.list_of_perm`: it does not depend on the order in which the
  table of labels is gone through.
* `Program.showsWord_entryText`: the line of an entry shows its word.
* `Assembler.list_faithful`: the listing shows exactly the words and the labels, and a sink that
  fills up takes the first bytes of it.
-/

namespace WordMachine

/-! ## Tables without double keys -/

namespace Table

variable {κ ν : Type} [BEq κ] [LawfulBEq κ] {t : Table κ ν}

/-- No key stands twice in the table. -/
def Distinct (t : Table κ ν) : Prop :=
  (t.entries.map (·.1)).Nodup

theorem Distinct.insert (h : t.Distinct) (k : κ) (v : ν) : (t.insert k v).Distinct := by
  have hrest : ((t.erase k).entries.map (·.1)).Nodup :=
    List.Nodup.sublist (List.filter_sublist.map _) h
  refine List.nodup_cons.mpr ⟨?_, hrest⟩
  intro hk
  obtain ⟨e, he, heq⟩ := List.mem_map.mp hk
  have hne := (List.mem_filter.mp he).2
  simp [heq] at hne

/-- In such a table, the entries are the keys `k` with the values `v` that are found under them. -/
theorem Distinct.mem_entries_iff (h : t.Distinct) {k : κ} {v : ν} :
    (k, v) ∈ t.entries ↔ t.get? k = some v := by
  obtain ⟨entries⟩ := t
  simp only [Distinct, get?] at h ⊢
  induction entries with
  | nil => simp
  | cons e es ih =>
    obtain ⟨l, u⟩ := e
    rw [List.map_cons, List.nodup_cons] at h
    rw [List.mem_cons, List.lookup_cons, Prod.mk.injEq]
    by_cases hk : k = l
    · subst hk
      have hno : (k, v) ∉ es := fun hmem => h.1 (List.mem_map.mpr ⟨(k, v), hmem, rfl⟩)
      simp [hno, eq_comm]
    · rw [beq_false_of_ne hk, ← ih h.2]
      simp [hk]

end Table

/-- The table of labels has no label twice. -/
theorem Labels.distinct_ofLines (lines : List Asm.SourceLine) :
    (Labels.ofLines lines).Distinct := by
  induction lines using List.reverseRecOn with
  | nil => exact List.nodup_nil
  | append_singleton lines last ih =>
    rw [Asm.ofLines_concat]
    cases last.label with
    | none => exact ih
    | some label => exact ih.insert label _

namespace Program

open Text (byte isVisible)

/-! ## Labels of a place -/

section Labels

variable {p : Program} {pc : Int}

/-- The labels of the place `pc` stand in ascending order. -/
theorem pairwise_labelsAt (p : Program) (pc : Int) : (p.labelsAt pc).Pairwise (· ≤ ·) := by
  have hsorted := @List.pairwise_mergeSort Text (fun a b => decide (a ≤ b))
    (fun a b c hab hbc => by simpa using List.le_trans (by simpa using hab) (by simpa using hbc))
    (fun a b => by simpa using List.le_total a b)
    ((p.labels.entries.filter fun e => e.2 == pc).map (·.1))
  simpa [labelsAt] using hsorted

theorem perm_labelsAt (p : Program) (pc : Int) :
    (p.labelsAt pc).Perm ((p.labels.entries.filter fun e => e.2 == pc).map (·.1)) :=
  List.mergeSort_perm _ _

/-- **The labels of a place do not depend on the order of the table**, whose entries may be
permuted. -/
theorem labelsAt_of_perm {p p' : Program} (h : p'.labels.entries.Perm p.labels.entries) (pc : Int) :
    p'.labelsAt pc = p.labelsAt pc := by
  have hperm : (p'.labelsAt pc).Perm (p.labelsAt pc) :=
    (perm_labelsAt p' pc).trans (((h.filter _).map _).trans (perm_labelsAt p pc).symm)
  exact List.Perm.eq_of_pairwise (fun a b _ _ hab hba => List.le_antisymm hab hba)
    (pairwise_labelsAt p' pc) (pairwise_labelsAt p pc) hperm

/-- **The labels of the place `pc` are those that stand for it**, each once. -/
theorem labelsAt_eq (h : p.labels.Distinct) (pc : Int) :
    (p.labelsAt pc).Pairwise (· < ·) ∧
      ∀ name, name ∈ p.labelsAt pc ↔ p.labels.get? name = some pc := by
  have hnodup : (p.labelsAt pc).Nodup := by
    rw [(perm_labelsAt p pc).nodup_iff]
    exact List.Nodup.sublist (List.filter_sublist.map _) h
  constructor
  · exact ((pairwise_labelsAt p pc).and hnodup).imp fun hle => Std.lt_of_le_of_ne hle.1 hle.2
  · intro name
    rw [(perm_labelsAt p pc).mem_iff, ← h.mem_entries_iff]
    simp

end Labels

/-! ## Lines of entries -/

/-- The line that lists the entry `e`, without the line feed at its end. -/
def entryText (e : Entry) : Text :=
  Text.paddedHex 4 e.pc ++ ": " ++ Text.upperHex 8 e.code.toNat ++ "  " ++
    Text.padRight 24 (byte ' ') e.code.disassemble ++ " ; " ++ Text.ofInt e.lineNo ++ ": " ++
    Text.join " " e.words

theorem entryLine_eq (e : Entry) : entryLine e = entryText e ++ [byte '\n'] := rfl

/-- The second of the fields that white space separates. -/
def secondField (line : Text) : Text :=
  Text.firstField (Text.trimStart (Text.splitField line).2)

/-- A line that shows the word `w`: its first field is `pc` in hexadecimal, with a colon, and its
second field is `w` in hexadecimal. -/
structure ShowsWord (pc : Nat) (w : Word) (line : Text) : Prop where
  place : Text.firstField line = Text.paddedHex 4 pc ++ ":"
  value : Text.natOf? 16 (Text.paddedHex 4 pc) = some pc
  word : Text.natOf? 16 (secondField line) = some w.toNat

/-- What is read as a number can be seen: `t` has visible bytes only. -/
theorem visible_of_natOf? {t : Text} {n : Nat} (h : Text.natOf? 16 t = some n) :
    t ≠ [] ∧ ∀ b ∈ t, isVisible b = true := by
  unfold Text.natOf? at h
  split at h
  · rename_i hdigits
    rw [Bool.and_eq_true, List.all_eq_true] at hdigits
    refine ⟨by simpa using hdigits.1, fun b hb => ?_⟩
    rcases Text.isDigit_or_isLetter_of_isDigitOf (Nat.le_refl 16) (hdigits.2 b hb) with hb | hb
    · exact Text.isVisible_of_isDigit hb
    · exact Text.isVisible_of_isLetter hb
  · cases h

theorem natOf?_paddedHex (width n : Nat) : Text.natOf? 16 (Text.paddedHex width n) = some n := by
  rw [Text.paddedHex, if_neg (by omega), Int.natAbs_natCast]
  exact Text.natOf?_zeros_append Text.spells_byte (by decide) (by decide) _ n

theorem natOf?_upperHex (width n : Nat) : Text.natOf? 16 (Text.upperHex width n) = some n :=
  Text.natOf?_zeros_append Text.spells_upper (by decide) (by decide) _ n

/-- **The line of an entry shows its word** `e.code`. -/
theorem showsWord_entryText {e : Entry} {pc : Nat} (hpc : e.pc = pc) :
    ShowsWord pc e.code (entryText e) := by
  have hplace := visible_of_natOf? (natOf?_paddedHex 4 pc)
  have hword := visible_of_natOf? (natOf?_upperHex 8 e.code.toNat)
  obtain ⟨b, ds, hdigits⟩ := List.exists_cons_of_ne_nil hword.1
  have hfirst : ∀ b ∈ Text.paddedHex 4 pc ++ ":", isVisible b = true := by
    rw [List.forall_mem_append]
    exact ⟨hplace.2, List.all_eq_true.mp (by decide)⟩
  obtain ⟨rest, hline⟩ : ∃ rest, entryText e =
      (Text.paddedHex 4 pc ++ ":") ++
        byte ' ' :: (Text.upperHex 8 e.code.toNat ++ byte ' ' :: rest) := by
    refine ⟨byte ' ' :: (Text.padRight 24 (byte ' ') e.code.disassemble ++ " ; " ++
      Text.ofInt e.lineNo ++ ": " ++ Text.join " " e.words), ?_⟩
    have hcolon : Text.ofString ": " = Text.ofString ":" ++ [byte ' '] := rfl
    have hspaces : Text.ofString "  " = [byte ' ', byte ' '] := rfl
    rw [entryText, hpc, hcolon, hspaces]
    simp only [List.append_assoc, List.cons_append, List.nil_append]
  have hfields :=
    Text.splitField_append_space hfirst (Text.upperHex 8 e.code.toNat ++ byte ' ' :: rest)
  have htrim : Text.trimStart (byte ' ' :: (Text.upperHex 8 e.code.toNat ++ byte ' ' :: rest)) =
      Text.upperHex 8 e.code.toNat ++ byte ' ' :: rest := by
    have hspace := Text.trimStart_blanks_append Text.blanks_space
      (Text.upperHex 8 e.code.toNat ++ byte ' ' :: rest)
    rw [List.singleton_append] at hspace
    rw [hspace, hdigits, List.cons_append]
    exact Text.trimStart_cons_visible (hword.2 b (hdigits ▸ List.mem_cons_self)) _
  refine ⟨?_, natOf?_paddedHex 4 pc, ?_⟩
  · rw [hline, Text.firstField, hfields]
  · rw [secondField, hline, hfields, htrim, Text.firstField, Text.splitField_append_space hword.2]
    exact natOf?_upperHex 8 e.code.toNat

/-- The line of the entry `e` has no line feed in it if the words of its source have none. -/
theorem noFeed_entryText {e : Entry} {pc : Nat} (hpc : e.pc = pc)
    (hcode : byte '\n' ∉ e.code.disassemble) (hwords : ∀ t ∈ e.words, byte '\n' ∉ t) :
    byte '\n' ∉ entryText e := by
  have hseen : ∀ {t : Text}, (∀ b ∈ t, isVisible b = true) → byte '\n' ∉ t := by
    intro t ht hmem
    exact absurd (ht _ hmem) (by decide)
  have hjoin : byte '\n' ∉ Text.join " " e.words := by
    intro hmem
    rcases Text.mem_join hmem with hsep | ⟨t, ht, hmem⟩
    · exact absurd hsep (by decide)
    · exact hwords t ht hmem
  have hpad : byte '\n' ∉ Text.padRight 24 (byte ' ') e.code.disassemble := by
    rw [Text.padRight, List.mem_append, not_or]
    exact ⟨hcode, fun hmem => absurd (List.eq_of_mem_replicate hmem) (by decide)⟩
  have hplace := hseen (visible_of_natOf? (natOf?_paddedHex 4 pc)).2
  have hword := hseen (visible_of_natOf? (natOf?_upperHex 8 e.code.toNat)).2
  have hnumber := hseen fun b hb =>
    Asm.isVisible_of_isPlain ((Asm.plainOperand_ofInt e.lineNo).plain b hb)
  rw [entryText, hpc]
  simp only [List.mem_append, not_or]
  exact ⟨⟨⟨⟨⟨⟨⟨⟨hplace, by decide⟩, hword⟩, by decide⟩, hpad⟩, by decide⟩, hnumber⟩, by decide⟩,
    hjoin⟩

/-! ## The whole listing -/

/-- The lines of the listing, without the line feeds at their ends. -/
def listedLines (p : Program) : List Text :=
  p.entries.toList.flatMap fun e =>
    (p.labelsAt e.pc).map (fun (label : Text) => label ++ ":") ++ [entryText e]

theorem flatten_listingLines (p : Program) :
    p.listingLines.flatten = Input.unlines p.listedLines := by
  have hlabel : ∀ label : Text, label ++ ":\n" = label ++ ":" ++ [byte '\n'] := by
    intro label
    rw [List.append_assoc]
    rfl
  simp only [listingLines, listedLines, Input.unlines, List.flatMap_assoc, List.flatten_eq_flatMap,
    List.flatMap_append, List.flatMap_map, List.flatMap_singleton, hlabel, entryLine_eq, id_eq]

/-- **A listing is its lines, each ended by a line feed**, as much of them as the `sink` takes. -/
theorem list_eq (p : Program) (sink : Sink) :
    p.list sink = sink.write (Input.unlines p.listedLines) := by
  rw [list, Sink.writeAll_eq_write, flatten_listingLines]

/-- The line of the entry at the position `k`. -/
def entryTextAt (p : Program) (k : Nat) : Text :=
  (p.entries[k]?.map entryText).getD []

/-- The listing of a numbered program goes through the program counters `pc` in order. -/
theorem listedLines_eq {p : Program} (hp : p.Numbered) :
    p.listedLines = (List.range p.entries.size).flatMap fun (pc : Nat) =>
      (p.labelsAt pc).map (fun (label : Text) => label ++ ":") ++ [p.entryTextAt pc] := by
  rw [listedLines, List.flatMap_def, List.flatMap_def]
  congr 1
  refine List.ext_getElem? fun k => ?_
  rw [List.getElem?_map, List.getElem?_map, Array.getElem?_toList]
  cases hk : p.entries[k]? with
  | none =>
    have hlength : (List.range p.entries.size).length ≤ k := by
      simpa using hk
    rw [List.getElem?_eq_none hlength, Option.map_none, Option.map_none]
  | some e =>
    have hlt : k < p.entries.size := (Array.getElem?_eq_some_iff.mp hk).1
    rw [List.getElem?_range hlt, Option.map_some, Option.map_some, hp k e hk, entryTextAt, hk]
    rfl

/-- The listing does not depend on the order of the table of labels: `p'` may have it permuted. -/
theorem list_of_perm (p p' : Program) (hentries : p'.entries = p.entries)
    (hlabels : p'.labels.entries.Perm p.labels.entries) (sink : Sink) :
    p'.list sink = p.list sink := by
  simp only [list, listingLines, hentries, labelsAt_of_perm hlabels]

end Program

namespace Assembler

open Asm
open Text (byte)

/-- Operands `o` have no line feeds in them. -/
theorem noFeed_of_mem_operandList {t o : Text} (h : o ∈ operandList t) : byte '\n' ∉ o := by
  rw [operandList] at h
  intro hmem
  exact absurd (Input.noMark_of_mem_splitOnP (List.mem_of_mem_filter h) _ hmem) (by decide)

theorem noFeed_of_instr? {line : Text} {i : SourceInstr} (h : instr? line = some i) :
    ∀ o ∈ i.operands, byte '\n' ∉ o := by
  unfold instr? at h
  split at h
  · cases h
  · obtain rfl := Option.some.inj h
    dsimp only
    exact fun o ho => noFeed_of_mem_operandList ho

section Accepted

variable {asm : Assembler} {input : Input} {p : Program} (hp : (asm.parse input).result = .ok p)

include hp

/-- The line of an entry `e` of an assembled program has no line feed in it. -/
theorem noFeed_of_parse {k : Nat} {e : Entry} (he : p.entries[k]? = some e) :
    byte '\n' ∉ Program.entryText e := by
  have hpc := Program.numbered_of_parse hp k e he
  obtain ⟨src, hsrc, i, encoding, hinstr, hencode, rfl⟩ :=
    (assembled_of_parse hp).exists_line_of_mem (Array.mem_of_getElem? he)
  obtain ⟨m, -, hname, -, -⟩ := reads_of_encode hencode
  obtain ⟨shown, hshows⟩ := exists_shows_of_encode hencode
  rw [(Scan.reads_ofInput (fault_of_parse hp)).1.lines, List.mem_filterMap] at hsrc
  obtain ⟨j, -, hj⟩ := hsrc
  obtain ⟨line, -, -, rfl⟩ := sourceLine?_eq_some hj
  dsimp only at hinstr
  refine Program.noFeed_entryText hpc ?_ ?_
  · rw [hshows.text]
    exact not_mem_text hshows.plain.toLegible (by decide) (by decide) (by decide)
  · rw [SourceInstr.words, List.forall_mem_cons]
    refine ⟨fun hmem => ?_, noFeed_of_instr? hinstr⟩
    rw [← Mnemonic.name_of_ofName? hname] at hmem
    exact absurd (m.name_plain.2.2.1 _ hmem) (by decide)

/-- The labels of the place `pc` of an assembled program are those that stand for it. -/
theorem labelsAt_of_parse (pc : Int) :
    (p.labelsAt pc).Pairwise (· < ·) ∧
      ∀ name, name ∈ p.labelsAt pc ↔ p.labels.get? name = some pc := by
  refine Program.labelsAt_eq ?_ pc
  rw [(assembled_of_parse hp).labels]
  exact Labels.distinct_ofLines _

/-- No line of the listing has a line feed in it. -/
theorem noFeed_listedLines : ∀ line ∈ p.listedLines, byte '\n' ∉ line := by
  intro line hline
  obtain ⟨e, he, hline⟩ := List.mem_flatMap.mp hline
  rcases List.mem_append.mp hline with hline | hline
  · obtain ⟨name, hname, rfl⟩ := List.mem_map.mp hline
    have hlabel := isLabel_of_parse hp (((labelsAt_of_parse hp e.pc).2 name).mp hname)
    rw [List.mem_append, not_or]
    exact ⟨not_mem_of_isLabel hlabel (by decide), by decide⟩
  · obtain ⟨k, hk⟩ := Array.mem_iff_getElem?.mp (Array.mem_toList_iff.mp he)
    rw [List.mem_singleton.mp hline]
    exact noFeed_of_parse hp hk

/-- A label `name` that is listed stands for the place of an entry. -/
theorem lt_of_mem_listedLines {name : Text} {pc : Int} (hname : p.labels.get? name = some pc)
    (hmem : name ++ ":" ∈ p.listedLines) : pc < p.entries.size := by
  obtain ⟨e, he, hline⟩ := List.mem_flatMap.mp hmem
  obtain ⟨k, hk⟩ := Array.mem_iff_getElem?.mp (Array.mem_toList_iff.mp he)
  rcases List.mem_append.mp hline with hline | hline
  · obtain ⟨other, hother, heq⟩ := List.mem_map.mp hline
    obtain rfl := List.append_cancel_right heq
    rw [(labelsAt_of_parse hp e.pc).2 other, hname, Option.some.injEq,
      Program.numbered_of_parse hp k e hk] at hother
    have hlt : k < p.entries.size := (Array.getElem?_eq_some_iff.mp hk).1
    omega
  · -- The line of an entry has a space in it, and no label has.
    have hspace : byte ' ' ∈ name ++ ":" := by
      rw [List.mem_singleton.mp hline]
      simp [Program.entryText, show byte ' ' ∈ Text.ofString ": " by decide]
    rcases List.mem_append.mp hspace with hspace | hspace
    · exact absurd hspace (not_mem_of_isLabel (isLabel_of_parse hp hname) (by decide))
    · exact absurd hspace (by decide)

end Accepted

/-- **The listing of an assembled program is faithful and does not depend on the order of its
labels.** It shows for each program counter the labels that stand for it, in ascending order, and
then its word, and nothing else. A sink that fills up has taken the first bytes of its `text`. -/
theorem list_faithful (asm : Assembler) (input : Input) (p : Program)
    (hp : (asm.parse input).result = .ok p) :
    let text := (p.list {}).1.text
    (p.list {}).2 = none ∧
      (∃ (names : Nat → List Text) (line : Nat → Text),
        Input.segments text = (List.range p.entries.size).flatMap (fun pc =>
          (names pc).map (fun (name : Text) => name ++ ":") ++ [line pc]) ∧
        text = Input.unlines (Input.segments text) ∧
        ∀ pc < p.entries.size, (names pc).Pairwise (· < ·) ∧
          (∀ name, name ∈ names pc ↔ p.labels.get? name = some (pc : Int)) ∧
          ∃ w, p.image[pc]? = some w ∧ Program.ShowsWord pc w (line pc)) ∧
      (∀ name, p.labels.get? name = some (p.entries.size : Int) →
        name ++ ":" ∉ Input.segments text) ∧
      (∀ order, order.Perm p.labels.entries →
        ∀ sink, { p with labels := ⟨order⟩ }.list sink = p.list sink) ∧
      ∀ (limit : Nat) (failure : Failure),
        let out := p.list ⟨some ⟨limit, failure⟩, #[]⟩
        out.1.text = text.take (min limit text.length) ∧ (out.2 = none ↔ text.length ≤ limit) := by
  have htext : (p.list {}).1.text = Input.unlines p.listedLines := by
    rw [Program.list_eq, @Sink.write_unbounded {} rfl]
    simp [Sink.text]
  have hsegments := Input.segments_unlines (noFeed_listedLines hp)
  dsimp only
  rw [htext, hsegments]
  refine ⟨?_, ⟨fun pc => p.labelsAt pc, p.entryTextAt, ?_, rfl, ?_⟩, ?_, ?_, ?_⟩
  · rw [Program.list_eq, @Sink.write_unbounded {} rfl]
  · exact Program.listedLines_eq (Program.numbered_of_parse hp)
  · intro pc hpc
    have he : p.entries[pc]? = some p.entries[pc] := Array.getElem?_eq_getElem hpc
    refine ⟨(labelsAt_of_parse hp pc).1, (labelsAt_of_parse hp pc).2, p.entries[pc].code, ?_, ?_⟩
    · simp [Program.image, he]
    · rw [Program.entryTextAt, he]
      exact Program.showsWord_entryText (Program.numbered_of_parse hp pc _ he)
  · intro name hname
    exact fun hmem => lt_irrefl _ (lt_of_mem_listedLines hp hname hmem)
  · intro order horder sink
    exact Program.list_of_perm p { p with labels := ⟨order⟩ } rfl horder sink
  · intro limit failure
    rw [Program.list_eq]
    obtain ⟨htaken, hfailure⟩ := Sink.write_of_bound ⟨limit, failure⟩ (Input.unlines p.listedLines)
    refine ⟨htaken, ?_⟩
    rw [hfailure]
    simp

set_option maxRecDepth 10000 in
/-- Two labels of one place, which are defined in descending order, and a label after the last word;
a sink of three bytes takes the line of the first label. -/
theorem list_faithful_shared :
    ∃ p, ∃ line : Text,
      ((({} : Assembler).parse ⟨".text\nb:\na: add $1, $2, $3\nend:", none⟩).result = .ok p ∧
        (p.labels, p.entries.size, p.image) =
          ((⟨[("end", 1), ("a", 0), ("b", 0)]⟩ : Labels), 1, (#[0x00443000] : Array Word))) ∧
      Input.segments (p.list {}).1.text = (["a:", "b:"] : List Text) ++ [line] ∧
      Program.ShowsWord 0 0x00443000 line ∧
      (p.list ⟨some ⟨3, ⟨"no space"⟩⟩, #[]⟩).1.text = ("a:\n" : Text) ∧
      (p.list ⟨some ⟨3, ⟨"no space"⟩⟩, #[]⟩).2 ≠ none := by
  obtain ⟨p, hp, hdata⟩ := exists_ok_of_toOption_map
    (x := (({} : Assembler).parse ⟨".text\nb:\na: add $1, $2, $3\nend:", none⟩).result)
    (f := fun p => (p.labels, p.entries.size, p.image))
    (b := ((⟨[("end", 1), ("a", 0), ("b", 0)]⟩ : Labels), 1, (#[0x00443000] : Array Word)))
    (by decide +kernel)
  obtain ⟨hlabels, hrest⟩ := Prod.mk.inj hdata
  obtain ⟨hsize, himage⟩ := Prod.mk.inj hrest
  obtain ⟨-, ⟨names, line, hsegments, hlines, hplaces⟩, -, -, hlimit⟩ := list_faithful {} _ p hp
  obtain ⟨hsorted, hmem, w, hw, hshows⟩ := hplaces 0 (by omega)
  have hnames : names 0 = (["a", "b"] : List Text) := by
    have hperm : (names 0).Perm ["a", "b"] := by
      have hnodup : (["a", "b"] : List Text).Nodup := by decide
      refine (List.perm_ext_iff_of_nodup (hsorted.imp fun hlt => Std.ne_of_lt hlt) hnodup).mpr
        fun name => ?_
      have hdistinct : p.labels.Distinct := by
        rw [hlabels]
        exact (by decide : (["end", "a", "b"] : List Text).Nodup)
      rw [hmem, ← hdistinct.mem_entries_iff, hlabels]
      simp
    exact hperm.eq_of_pairwise (fun a b _ _ hab hba => absurd hba (List.lt_asymm hab)) hsorted
      (by decide)
  have hword : w = 0x00443000 := by
    rw [himage] at hw
    exact (Option.some.inj hw).symm
  rw [hsize, List.range_one, List.flatMap_singleton, hnames] at hsegments
  -- The first line, and one byte that does not fit any more.
  have htext : (p.list {}).1.text = "a:\n" ++ byte 'b' :: (":\n" ++ Input.unlines [line 0]) := by
    rw [hlines, hsegments]
    rfl
  have hfirst : ("a:\n" : Text).length = 3 := rfl
  obtain ⟨htaken, hfailure⟩ := hlimit 3 ⟨"no space"⟩
  rw [htext, List.length_append, List.length_cons, hfirst] at htaken hfailure
  refine ⟨p, line 0, ⟨hp, hdata⟩, hsegments, hword ▸ hshows, ?_, ?_⟩
  · rw [htaken, Nat.min_eq_left (Nat.le_add_right 3 _), ← hfirst, List.take_left]
  · intro hnone
    have hlength := hfailure.mp hnone
    omega

end Assembler

end WordMachine
