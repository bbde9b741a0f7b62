import WordMachine.Files.Store
import WordMachine.Proofs.Image
import Mathlib.Logic.Function.Basic

/-!
# Saving without traces

Whatever fails while an image is saved, nobody finds half of it under its name, and no other file
but the temporary one is touched. This is shown for every store whose operations keep to the laws of
`Lawful`. Such a store may fail at each of its operations, and may limit what a file takes; its
states after all calls are looked at, not only the last one.

* `course_save`: the ways in which saving goes, with the states after all calls.
* `save_atomic`: saving is atomic at every call.
* `Store.lawful_operations`: the store in memory keeps to the laws, however it misbehaves.
-/

namespace WordMachine

namespace FileStore

variable {σ : Type}

/-! ## Laws of stores -/

/-- The laws of a store, in terms of the files that its states are seen to have, by `look`. -/
structure Lawful (fs : FileStore (StateM σ)) (look : σ → Text → Option Text) : Prop where
  /-- If a file cannot be made, nothing changes. -/
  create_error : ∀ {name s failure s'}, (fs.create name).run s = (.error failure, s') →
    look s' = look s
  /-- A file that is made is empty, and no other one is disturbed. -/
  create_ok : ∀ {name s sink s'}, (fs.create name).run s = (.ok sink, s') →
    sink.text = [] ∧ ∀ other, other ≠ name → look s' other = look s other
  /-- What a file took is stored, also if closing it fails. -/
  close : ∀ {name sink s failure s'}, (fs.close name sink).run s = (failure, s') →
    look s' = Function.update (look s) name (some sink.text)
  /-- A rename that fails moves nothing. -/
  rename_error : ∀ {old new s failure s'}, (fs.rename old new).run s = (some failure, s') →
    look s' = look s
  /-- A file is moved in one step. -/
  rename_ok : ∀ {old new s s' contents}, (fs.rename old new).run s = (none, s') →
    look s old = some contents →
    look s' = Function.update (Function.update (look s) old none) new (some contents)
  /-- A file that is removed is gone. -/
  remove : ∀ name s, look ((fs.remove name).run s).2 = Function.update (look s) name none

/-! ## Runs and their states -/

theorem run_bind {α β : Type} (x : StateM σ α) (f : α → StateM σ β) (s : σ) :
    (x >>= f).run s = (f (x.run s).1).run (x.run s).2 := rfl

/-- An operation `x` that notes the state after it. -/
def noting {α : Type} (x : StateM σ α) : StateM (σ × List σ) α :=
  modifyGet fun (s, seen) =>
    let (a, s') := x.run s
    (a, (s', seen ++ [s']))

theorem run_noting {α : Type} (x : StateM σ α) (s : σ) (seen : List σ) :
    (noting x).run (s, seen) = ((x.run s).1, ((x.run s).2, seen ++ [(x.run s).2])) := rfl

/-- The store with all states after its calls, in order. -/
def traced (fs : FileStore (StateM σ)) : FileStore (StateM (σ × List σ)) where
  create name := noting (fs.create name)
  close name sink := noting (fs.close name sink)
  rename old new := noting (fs.rename old new)
  remove name := noting (fs.remove name)

section Courses

variable (fs : FileStore (StateM σ)) (name : Text) (layout : Layout) (words : Array Word) (s : σ)

/-- The ways in which saving goes, with what it returns and the states after its calls; `saved`
alone returns `none`. -/
inductive Course : Option SaveError → List σ → Prop
  | notCreated {failure : Failure} {s₁ : σ}
      (hcreate : (fs.create (temporaryName name)).run s = (.error failure, s₁)) :
      Course (some (.file failure)) [s₁]
  | notStored {sink : Sink} {s₁ : σ} {closed : Option Failure} {s₂ : σ} {e : SaveError}
      (hcreate : (fs.create (temporaryName name)).run s = (.ok sink, s₁))
      (hclose : (fs.close (temporaryName name) (Image.write layout words sink).sink).run s₁ =
        (closed, s₂))
      (hfailed : (Image.write layout words sink).error ≠ none ∨ closed ≠ none) :
      Course (some e) [s₁, s₂, ((fs.remove (temporaryName name)).run s₂).2]
  | notMoved {sink : Sink} {s₁ s₂ : σ} {failure : Failure} {s₃ : σ}
      (hcreate : (fs.create (temporaryName name)).run s = (.ok sink, s₁))
      (hwrite : (Image.write layout words sink).error = none)
      (hclose : (fs.close (temporaryName name) (Image.write layout words sink).sink).run s₁ =
        (none, s₂))
      (hrename : (fs.rename (temporaryName name) name).run s₂ = (some failure, s₃)) :
      Course (some (.file failure)) [s₁, s₂, s₃, ((fs.remove (temporaryName name)).run s₃).2]
  | saved {sink : Sink} {s₁ s₂ s₃ : σ}
      (hcreate : (fs.create (temporaryName name)).run s = (.ok sink, s₁))
      (hwrite : (Image.write layout words sink).error = none)
      (hclose : (fs.close (temporaryName name) (Image.write layout words sink).sink).run s₁ =
        (none, s₂))
      (hrename : (fs.rename (temporaryName name) name).run s₂ = (none, s₃)) :
      Course none [s₁, s₂, s₃]

/-- All calls of saving succeed from the state `s`, and so does the writing. -/
def Succeeds : Prop :=
  ∃ sink s₁ s₂ s₃, (fs.create (temporaryName name)).run s = (.ok sink, s₁) ∧
    (Image.write layout words sink).error = none ∧
    (fs.close (temporaryName name) (Image.write layout words sink).sink).run s₁ = (none, s₂) ∧
    (fs.rename (temporaryName name) name).run s₂ = (none, s₃)

/-- **Saving goes one of these ways**, and noting the states, as `traced` does, makes no difference
to it. -/
theorem course_save : ∃ result final states,
    (fs.traced.save name layout words).run (s, []) = (result, (final, states)) ∧
      (fs.save name layout words).run s = (result, final) ∧
      states.getLast? = some final ∧ Course fs name layout words s result states := by
  -- One split for each call and for the writing; the rest is computation.
  unfold save
  rcases hcreate : (fs.create (temporaryName name)).run s with ⟨failure | sink, s₁⟩
  · simp only [run_bind, traced, run_noting, hcreate]
    exact ⟨_, _, _, rfl, rfl, rfl, .notCreated hcreate⟩
  · rcases hclose : (fs.close (temporaryName name) (Image.write layout words sink).sink).run s₁ with
      ⟨closed, s₂⟩
    simp only [run_bind, traced, run_noting, hcreate, hclose]
    cases hwrite : (Image.write layout words sink).error with
    | some e =>
      refine ⟨_, _, _, rfl, rfl, rfl, .notStored hcreate hclose (.inl ?_)⟩
      rw [hwrite]
      exact Option.some_ne_none e
    | none =>
      cases closed with
      | some failure =>
        exact ⟨_, _, _, rfl, rfl, rfl,
          .notStored hcreate hclose (.inr (Option.some_ne_none failure))⟩
      | none =>
        rcases hrename : (fs.rename (temporaryName name) name).run s₂ with ⟨failure | _, s₃⟩
        · simp only [run_bind, run_noting, hrename]
          exact ⟨_, _, _, rfl, rfl, rfl, .saved hcreate hwrite hclose hrename⟩
        · simp only [run_bind, run_noting, hrename]
          exact ⟨_, _, _, rfl, rfl, rfl, .notMoved hcreate hwrite hclose hrename⟩

variable {fs name layout words s}

/-- Saving fails only if one of its calls fails, or the writing: it returns `none` if it
`Succeeds`. -/
theorem Course.eq_none_iff {result : Option SaveError} {states : List σ}
    (h : Course fs name layout words s result states) :
    result = none ↔ Succeeds fs name layout words s := by
  constructor
  · rintro rfl
    cases h with
    | saved hcreate hwrite hclose hrename => exact ⟨_, _, _, _, hcreate, hwrite, hclose, hrename⟩
  · rintro ⟨sink', s₁', s₂', s₃', hcreate', hwrite', hclose', hrename'⟩
    cases h with
    | notCreated hcreate =>
      rw [hcreate] at hcreate'
      cases hcreate'
    | notStored hcreate hclose hfailed =>
      rw [hcreate] at hcreate'
      cases hcreate'
      rw [hclose] at hclose'
      cases hclose'
      exact hfailed.elim (absurd hwrite') (absurd rfl)
    | notMoved hcreate hwrite hclose hrename =>
      rw [hcreate] at hcreate'
      cases hcreate'
      rw [hclose] at hclose'
      cases hclose'
      rw [hrename] at hrename'
      cases hrename'
    | saved => rfl

end Courses

/-! ## What the states have -/

/-- The temporary name is longer than the `name`. -/
theorem length_temporaryName (name : Text) : (temporaryName name).length = name.length + 5 := by
  have hdot : (Text.ofString ".").length = 1 := rfl
  have htmp : (Text.ofString ".tmp").length = 4 := rfl
  simp only [temporaryName, List.length_append, hdot, htmp]
  omega

theorem temporaryName_ne (name : Text) : temporaryName name ≠ name := by
  intro heq
  have hlength := length_temporaryName name
  rw [heq] at hlength
  omega

/-- The state `s'` has the same files as `s`, but for `name`. -/
def SameBut (look : σ → Text → Option Text) (name : Text) (s s' : σ) : Prop :=
  ∀ other, other ≠ name → look s' other = look s other

/-- The state `s` has the whole image of `words` under `name`. -/
def HoldsImage (look : σ → Text → Option Text) (layout : Layout) (words : Array Word) (name : Text)
    (s : σ) : Prop :=
  ∃ d, layout.digits = .ok d ∧ look s name = some (Image.render d words)

section States

variable {look : σ → Text → Option Text} {name : Text}

theorem SameBut.trans {s₁ s₂ s₃ : σ} (h : SameBut look name s₁ s₂) (h' : SameBut look name s₂ s₃) :
    SameBut look name s₁ s₃ :=
  fun other hother => (h' other hother).trans (h other hother)

theorem sameBut_of_update {s s' : σ} {contents : Option Text}
    (h : look s' = Function.update (look s) name contents) : SameBut look name s s' := by
  intro other hother
  rw [h, Function.update_of_ne hother]

variable {fs : FileStore (StateM σ)} (hfs : fs.Lawful look)

include hfs

theorem Lawful.sameBut_remove (name : Text) (s : σ) :
    SameBut look name s ((fs.remove name).run s).2 :=
  sameBut_of_update (hfs.remove name s)

theorem Lawful.absent_remove (name : Text) (s : σ) :
    look ((fs.remove name).run s).2 name = none := by
  rw [hfs.remove, Function.update_self]

theorem Lawful.sameBut_rename_error {old new : Text} {s s' : σ} {failure : Failure}
    (h : (fs.rename old new).run s = (some failure, s')) : SameBut look name s s' :=
  fun other _ => congrFun (hfs.rename_error h) other

variable {layout : Layout} {words : Array Word} {s : σ} {result : Option SaveError}
  {states : List σ}

/-- **If saving fails, no state has other files than before, but for the temporary one**: each is
`SameBut` for `temporaryName name`. -/
theorem Lawful.sameBut_of_failed (h : Course fs name layout words s result states)
    (hresult : result ≠ none) : ∀ s' ∈ states, SameBut look (temporaryName name) s s' := by
  intro s' hs'
  cases h with
  | notCreated hcreate =>
    obtain rfl := List.mem_singleton.mp hs'
    exact fun other _ => congrFun (hfs.create_error hcreate) other
  | notStored hcreate hclose hfailed =>
    have h₁ := (hfs.create_ok hcreate).2
    have h₂ := SameBut.trans h₁ (sameBut_of_update (hfs.close hclose))
    simp only [List.mem_cons, List.not_mem_nil, or_false] at hs'
    rcases hs' with rfl | rfl | rfl
    · exact h₁
    · exact h₂
    · exact h₂.trans (hfs.sameBut_remove _ _)
  | notMoved hcreate hwrite hclose hrename =>
    have h₁ := (hfs.create_ok hcreate).2
    have h₂ := SameBut.trans h₁ (sameBut_of_update (hfs.close hclose))
    have h₃ := h₂.trans (hfs.sameBut_rename_error hrename)
    simp only [List.mem_cons, List.not_mem_nil, or_false] at hs'
    rcases hs' with rfl | rfl | rfl | rfl
    · exact h₁
    · exact h₂
    · exact h₃
    · exact h₃.trans (hfs.sameBut_remove _ _)
  | saved => exact absurd rfl hresult

/-- **If saving fails, there is no temporary file in the end**, unless it could not be made and the
`final` state has the files of `s`. -/
theorem Lawful.absent_of_failed (h : Course fs name layout words s result states)
    (hresult : result ≠ none) {final : σ} (hfinal : states.getLast? = some final) :
    look final (temporaryName name) = none ∨
      (∃ failure, ((fs.create (temporaryName name)).run s).1 = .error failure) ∧
        look final = look s := by
  cases h with
  | notCreated hcreate =>
    cases hfinal
    exact .inr ⟨⟨_, congrArg Prod.fst hcreate⟩, hfs.create_error hcreate⟩
  | notStored =>
    cases hfinal
    exact .inl (hfs.absent_remove _ _)
  | notMoved =>
    cases hfinal
    exact .inl (hfs.absent_remove _ _)
  | saved => exact absurd rfl hresult

/-- **If an image is saved, then all at once**: only the last state `s₃` has the image under its
name, and no temporary file. -/
theorem Lawful.states_of_saved (h : Course fs name layout words s none states) :
    ∃ s₁ s₂ s₃, states = [s₁, s₂, s₃] ∧ SameBut look (temporaryName name) s s₁ ∧
      SameBut look (temporaryName name) s s₂ ∧ HoldsImage look layout words name s₃ ∧
      look s₃ (temporaryName name) = none ∧
      ∀ other, other ≠ name → other ≠ temporaryName name → look s₃ other = look s other := by
  cases h with
  | saved hcreate hwrite hclose hrename =>
    rename_i sink s₁ s₂ s₃
    obtain ⟨hempty, h₁⟩ := hfs.create_ok hcreate
    have hclosed := hfs.close hclose
    have h₂ := SameBut.trans h₁ (sameBut_of_update hclosed)
    obtain ⟨d, hd, htext⟩ := Image.text_of_write hwrite
    rw [hempty, List.nil_append] at htext
    -- The whole image is in the temporary file before it is moved.
    have hstored : look s₂ (temporaryName name) = some (Image.render d words) := by
      rw [hclosed, Function.update_self, htext]
    have hmoved := hfs.rename_ok hrename hstored
    refine ⟨s₁, s₂, s₃, rfl, h₁, h₂, ⟨d, hd, ?_⟩, ?_, fun other hname htemporary => ?_⟩
    · rw [hmoved, Function.update_self]
    · rw [hmoved, Function.update_of_ne (temporaryName_ne name), Function.update_self]
    · rw [hmoved, Function.update_of_ne hname, Function.update_of_ne htemporary,
        h₂ other htemporary]

end States

/-! ## Saving -/

/-- **Saving is atomic at every call.** In all `states` after its calls, no file but `name` and
`temporaryName name` differs from before, and `name` is as before or has the whole image. In the end
it has the image if saving succeeds, and is as before if not; the temporary file is gone. -/
theorem save_atomic (fs : FileStore (StateM σ)) (look : σ → Text → Option Text)
    (hfs : fs.Lawful look) (name : Text) (layout : Layout) (words : Array Word) (s : σ) :
    ∃ result final states,
      (fs.traced.save name layout words).run (s, []) = (result, (final, states)) ∧
      (fs.save name layout words).run s = (result, final) ∧ states.getLast? = some final ∧
      (result = none ↔ Succeeds fs name layout words s) ∧
      (∀ s' ∈ states,
        (∀ other, other ≠ name → other ≠ temporaryName name → look s' other = look s other) ∧
        (look s' name = look s name ∨ HoldsImage look layout words name s')) ∧
      (result = none → HoldsImage look layout words name final ∧
        look final (temporaryName name) = none) ∧
      (result ≠ none → look final name = look s name ∧
        (look final (temporaryName name) = none ∨
          (∃ failure, ((fs.create (temporaryName name)).run s).1 = .error failure) ∧
            look final = look s)) := by
  obtain ⟨result, final, states, htraced, hrun, hfinal, hcourse⟩ :=
    course_save fs name layout words s
  have hne := temporaryName_ne name
  refine ⟨result, final, states, htraced, hrun, hfinal, hcourse.eq_none_iff, ?_, ?_, ?_⟩
  · intro s' hs'
    cases result with
    | some e =>
      have hsame := hfs.sameBut_of_failed hcourse (Option.some_ne_none e) s' hs'
      exact ⟨fun other _ hother => hsame other hother, .inl (hsame name hne.symm)⟩
    | none =>
      obtain ⟨s₁, s₂, s₃, rfl, h₁, h₂, himage, -, hothers⟩ := hfs.states_of_saved hcourse
      simp only [List.mem_cons, List.not_mem_nil, or_false] at hs'
      rcases hs' with rfl | rfl | rfl
      · exact ⟨fun other _ hother => h₁ other hother, .inl (h₁ name hne.symm)⟩
      · exact ⟨fun other _ hother => h₂ other hother, .inl (h₂ name hne.symm)⟩
      · exact ⟨hothers, .inr himage⟩
  · rintro rfl
    obtain ⟨s₁, s₂, s₃, rfl, -, -, himage, habsent, -⟩ := hfs.states_of_saved hcourse
    cases hfinal
    exact ⟨himage, habsent⟩
  · intro hresult
    have hsame := hfs.sameBut_of_failed hcourse hresult final (List.mem_of_getLast? hfinal)
    exact ⟨hsame name hne.symm, hfs.absent_of_failed hcourse hresult hfinal⟩

end FileStore

/-! ## The store in memory -/

namespace Store

variable (faults : Faults)

theorem run_create (name : Text) (s : Store) :
    ((operations faults).create name).run s =
      (match faults.create with
        | some failure => .error failure
        | none => .ok { bound := faults.bound }, s.record (.create name) s.files) := by
  simp only [operations]
  cases faults.create <;> rfl

theorem run_close (name : Text) (sink : Sink) (s : Store) :
    ((operations faults).close name sink).run s =
      (faults.close, s.record (.close name) (s.files.insert name sink.text)) := rfl

theorem run_rename (old new : Text) (s : Store) :
    ((operations faults).rename old new).run s =
      (faults.rename, s.record (.rename old new)
        (if faults.rename.isSome then s.files else moved s.files old new)) := rfl

/-- A table after an insertion of `contents` under `name`, as a function. -/
theorem get?_insert (files : Files) (name contents : Text) :
    (files.insert name contents).get? = Function.update files.get? name (some contents) := by
  funext other
  by_cases h : other = name
  · rw [h, Table.get?_insert_self, Function.update_self]
  · rw [Table.get?_insert_of_ne _ _ h, Function.update_of_ne h]

/-- A table after a deletion of `name`, as a function. -/
theorem get?_erase (files : Files) (name : Text) :
    (files.erase name).get? = Function.update files.get? name none := by
  funext other
  by_cases h : other = name
  · rw [h, Table.get?_erase_self, Function.update_self]
  · rw [Table.get?_erase_of_ne _ h, Function.update_of_ne h]

/-- **The store in memory keeps to the laws, however it misbehaves**, whatever the `faults` are. -/
theorem lawful_operations : (operations faults).Lawful fun s => s.files.get? where
  create_error := by
    intro name s failure s' h
    rw [run_create] at h
    obtain ⟨-, rfl⟩ := Prod.mk.inj h
    rfl
  create_ok := by
    intro name s sink s' h
    rw [run_create] at h
    obtain ⟨hsink, rfl⟩ := Prod.mk.inj h
    refine ⟨?_, fun _ _ => rfl⟩
    cases hcreate : faults.create with
    | some failure =>
      rw [hcreate] at hsink
      cases hsink
    | none =>
      rw [hcreate] at hsink
      cases hsink
      rfl
  close := by
    intro name sink s failure s' h
    rw [run_close] at h
    obtain ⟨-, rfl⟩ := Prod.mk.inj h
    exact get?_insert s.files name sink.text
  rename_error := by
    intro old new s failure s' h
    rw [run_rename] at h
    obtain ⟨hfailure, rfl⟩ := Prod.mk.inj h
    simp only [record, hfailure, Option.isSome_some, if_true]
  rename_ok := by
    intro old new s s' contents h hold
    rw [run_rename] at h
    obtain ⟨hfailure, rfl⟩ := Prod.mk.inj h
    simp only [record, hfailure, Option.isSome_none, Bool.false_eq_true, if_false, moved, hold]
    rw [get?_insert, get?_erase]
  remove := by
    intro name s
    exact get?_erase s.files name

end Store

/-- Saving over the file `a`, with a temporary file left from before, when the rename is denied. -/
theorem FileStore.save_atomic_denied :
    ∃ (final : Store) (states : List Store),
      ((Store.operations { rename := some ⟨"denied"⟩ }).traced.save "a" {} #[7]).run
          (⟨⟨[("a", "old"), (".a.tmp", "left"), ("b", "other")]⟩, []⟩, []) =
        (some (.file ⟨"denied"⟩), (final, states)) ∧
      (∀ s' ∈ states, s'.files.get? "b" = some "other") ∧
      final.files.get? "a" = some "old" ∧ final.files.get? ".a.tmp" = none := by
  obtain ⟨result, final, states, htraced, -, -, -, hstates, -, hfailed⟩ :=
    save_atomic (Store.operations { rename := some ⟨"denied"⟩ }) (fun s => s.files.get?)
      (Store.lawful_operations _) "a" {} #[7]
      ⟨⟨[("a", "old"), (".a.tmp", "left"), ("b", "other")]⟩, []⟩
  obtain rfl : result = some (.file ⟨"denied"⟩) := by
    refine (congrArg Prod.fst htraced).symm.trans ?_
    decide +kernel
  obtain ⟨hname, htemporary⟩ := hfailed (Option.some_ne_none _)
  refine ⟨final, states, htraced, fun s' hs' => ?_, hname, ?_⟩
  · exact (hstates s' hs').1 "b" (by decide) (by decide)
  · obtain habsent | ⟨⟨failure, hfailure⟩, -⟩ := htemporary
    · exact habsent
    · cases hfailure

end WordMachine
