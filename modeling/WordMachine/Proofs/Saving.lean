import WordMachine.Files.Disk
import WordMachine.Proofs.Atomic
import WordMachine.Proofs.Path

/-!
# Saving and opening

Making, filling and moving files leaves all directories where they are, so a path leads to the same
place before and after (`Disk.KeepsDirs.resolve`). Saving touches the place of the file and that of
the temporary one, and the first only if it succeeds; then the file is found under its name with the
contents that it was given.

* `Disk.temporary_ne`: a file and its temporary file are never at the same place.
* `Disk.differAt_of_failed`: saving that fails touches only the place of the temporary file.
* `Disk.hasFile_of_saved`: saving that succeeds leaves the image under its name.
-/

namespace WordMachine

open Text (byte)

namespace Disk

/-! ## Directories -/

/-- All directories of `d` are directories of `d'`. -/
def KeepsDirs (d d' : Disk) : Prop :=
  ∀ place, d.node? place = some .directory → d'.node? place = some .directory

/-- The `names` lead to the same place if directories are kept. -/
theorem KeepsDirs.walk {d d' : Disk} (h : KeepsDirs d d') {target : Place} {names : List Text} :
    ∀ place, d.walk place names = .ok target → d'.walk place names = .ok target := by
  induction names with
  | nil => exact fun place hwalk => hwalk
  | cons name names ih =>
    intro place hwalk
    unfold Disk.walk at hwalk ⊢
    split at hwalk
    · rw [if_pos ‹_›]
      exact ih place hwalk
    · rw [if_neg ‹_›]
      split at hwalk
      · rw [if_pos ‹_›]
        exact ih (parent place) hwalk
      · rw [if_neg ‹_›]
        split at hwalk
        · cases hwalk
        · rw [if_neg ‹_›]
          split at hwalk
          · rw [if_pos ‹_›]
            exact hwalk
          · rw [if_neg ‹_›]
            -- Here alone the disk is asked, and goes on only through a directory.
            split at hwalk
            · cases hwalk
            · cases hwalk
            · rw [h _ ‹_›]
              exact ih (name :: place) hwalk

/-- A `path` leads to the same place if directories are kept. -/
theorem KeepsDirs.resolve {d d' : Disk} (h : KeepsDirs d d') {path : Text} {target : Place}
    (hresolve : d.resolve path = .ok target) : d'.resolve path = .ok target := by
  unfold Disk.resolve at hresolve ⊢
  split at hresolve
  · cases hresolve
  · rw [if_neg ‹_›]
    split at hresolve
    · cases hresolve
    · rw [if_neg ‹_›]
      split at hresolve
      · cases hresolve
      · rw [if_neg ‹_›]
        exact h.walk _ hresolve

theorem KeepsDirs.trans {d d' d'' : Disk} (h : KeepsDirs d d') (h' : KeepsDirs d' d'') :
    KeepsDirs d d'' :=
  fun place hplace => h' place (h place hplace)

/-! ## Changes at a place that is no directory -/

/-- Only directories are at fixed places; what is at another `place` is found in `nodes`. -/
theorem node?_eq_get? {d : Disk} {place : Place} (h : d.node? place ≠ some .directory)
    (nodes : Table Place Node) : node? ⟨nodes⟩ place = nodes.get? place := by
  unfold node? at h ⊢
  split at h
  · exact absurd rfl h
  · rw [if_neg ‹_›]

theorem node?_congr {d : Disk} {nodes : Table Place Node} {place : Place}
    (h : nodes.get? place = d.nodes.get? place) : node? ⟨nodes⟩ place = d.node? place := by
  simp only [node?, h]

/-- The disks `d` and `d'` differ at most at `place`, which is a directory on neither of them. -/
structure DifferAt (place : Place) (d d' : Disk) : Prop where
  same : ∀ other, other ≠ place → d'.node? other = d.node? other
  before : d.node? place ≠ some .directory
  after : d'.node? place ≠ some .directory

namespace DifferAt

variable {place : Place} {d d' : Disk}

theorem symm (h : DifferAt place d d') : DifferAt place d' d :=
  ⟨fun other hother => (h.same other hother).symm, h.after, h.before⟩

theorem trans {d'' : Disk} (h : DifferAt place d d') (h' : DifferAt place d' d'') :
    DifferAt place d d'' :=
  ⟨fun other hother => (h'.same other hother).trans (h.same other hother), h.before, h'.after⟩

theorem keepsDirs (h : DifferAt place d d') : KeepsDirs d d' := by
  intro other hother
  have hne : other ≠ place := fun heq => h.before (heq ▸ hother)
  rw [h.same other hne, hother]

theorem resolve_iff (h : DifferAt place d d') {path : Text} {target : Place} :
    d'.resolve path = .ok target ↔ d.resolve path = .ok target :=
  ⟨h.symm.keepsDirs.resolve, h.keepsDirs.resolve⟩

end DifferAt

section Changes

variable {d : Disk} {place : Place} (h : d.node? place ≠ some .directory)

include h

/-- The `contents` that are written to `place` are there. -/
theorem node?_write (contents : Text) :
    (d.write place contents).node? place = some (.file contents) := by
  rw [write, node?_eq_get? h, Table.get?_insert_self]

/-- A write changes `place` only. -/
theorem differAt_write (contents : Text) : DifferAt place d (d.write place contents) where
  same := fun _ hother => node?_congr (Table.get?_insert_of_ne _ _ hother)
  before := h
  after := by
    rw [node?_write h]
    exact fun heq => nomatch heq

/-- A deletion changes `place` only. -/
theorem differAt_erase : DifferAt place d ⟨d.nodes.erase place⟩ where
  same := fun _ hother => node?_congr (Table.get?_erase_of_ne _ hother)
  before := h
  after := by
    rw [node?_eq_get? h, Table.get?_erase_self]
    exact fun heq => nomatch heq

end Changes

/-! ## Operations on files -/

theorem resolve_of_find {d : Disk} {path : Text} {place : Place} {node : Option Node}
    (h : d.find path = .ok (place, node)) : d.resolve path = .ok place ∧ d.node? place = node := by
  unfold find at h
  cases hresolve : d.resolve path with
  | error fault =>
    rw [hresolve] at h
    cases h
  | ok found =>
    rw [hresolve] at h
    cases h
    exact ⟨rfl, rfl⟩

theorem find_of_resolve {d : Disk} {path : Text} {place : Place} (h : d.resolve path = .ok place) :
    d.find path = .ok (place, d.node? place) := by
  rw [find, h]
  rfl

/-- The `path` leads to a file with the given `contents` at `place`. -/
structure HasFile (d : Disk) (path : Text) (place : Place) (contents : Text) : Prop where
  resolve : d.resolve path = .ok place
  node : d.node? place = some (.file contents)

namespace HasFile

variable {d : Disk} {path : Text} {place : Place} {contents : Text}

theorem find (h : d.HasFile path place contents) :
    d.find path = .ok (place, some (.file contents)) := by
  rw [find_of_resolve h.resolve, h.node]

theorem ne_directory (h : d.HasFile path place contents) : d.node? place ≠ some .directory := by
  rw [h.node]
  exact fun heq => nomatch heq

theorem openFile (h : d.HasFile path place contents) : d.openFile path = .ok ⟨contents, none⟩ := by
  rw [Disk.openFile, h.find]

end HasFile

/-- What is written to a `place` that is no directory is found there. -/
theorem hasFile_write {d : Disk} {path : Text} {place : Place}
    (hresolve : d.resolve path = .ok place) (hdir : d.node? place ≠ some .directory)
    (contents : Text) :
    (d.write place contents).HasFile path place contents :=
  ⟨(differAt_write hdir contents).keepsDirs.resolve hresolve, node?_write hdir contents⟩

/-- A file that `create` made is there, and empty. -/
theorem hasFile_of_create {d d' : Disk} {path : Text} (h : d.create path = .ok d') :
    ∃ place, d.resolve path = .ok place ∧ DifferAt place d d' ∧ d'.HasFile path place [] := by
  unfold create at h
  split at h
  · cases h
  · cases h
  · rename_i place node hnode hfind
    cases h
    obtain ⟨hresolve, hplace⟩ := resolve_of_find hfind
    have hdir : d.node? place ≠ some .directory := fun heq => hnode (hplace.symm.trans heq)
    exact ⟨place, hresolve, differAt_write hdir [], hasFile_write hresolve hdir []⟩

/-- A file that `fill` was given `contents` for has them. -/
theorem hasFile_fill {d : Disk} {path old : Text} {place : Place} (h : d.HasFile path place old)
    (contents : Text) :
    DifferAt place d (d.fill path contents) ∧
      (d.fill path contents).HasFile path place contents := by
  have hfill : d.fill path contents = d.write place contents := by
    simp only [fill, h.find]
  rw [hfill]
  exact ⟨differAt_write h.ne_directory contents, hasFile_write h.resolve h.ne_directory contents⟩

/-- Only the file at `place` is removed. -/
theorem differAt_remove {d : Disk} {path contents : Text} {place : Place}
    (h : d.HasFile path place contents) : DifferAt place d (d.remove path) := by
  have hremove : d.remove path = ⟨d.nodes.erase place⟩ := by
    simp only [remove, h.find]
  rw [hremove]
  exact differAt_erase h.ne_directory

/-- A file that `rename` moved is found at its `new` path, and only the two places are touched. -/
theorem hasFile_of_rename {d d' : Disk} {old new contents : Text} {place : Place}
    (hold : d.HasFile old place contents) (h : d.rename old new = .ok d') :
    ∃ target, d.resolve new = .ok target ∧ d'.HasFile new target contents ∧ KeepsDirs d d' ∧
      ∀ other, other ≠ target → other ≠ place → d'.node? other = d.node? other := by
  cases hnew : d.find new with
  | error fault => simp [rename, hold.find, hnew] at h
  | ok found =>
    obtain ⟨target, node⟩ := found
    obtain ⟨hresolve, htarget⟩ := resolve_of_find hnew
    have hdir : d.node? target ≠ some .directory := by
      intro hdir
      rw [htarget] at hdir
      simp [rename, hold.find, hnew, hdir] at h
    have hd' : d' = ⟨(d.nodes.erase place).insert target (.file contents)⟩ := by
      rw [htarget] at hdir
      cases node with
      | none => simpa [rename, hold.find, hnew, eq_comm] using h
      | some node =>
        cases node with
        | directory => exact absurd rfl hdir
        | file _ => simpa [rename, hold.find, hnew, eq_comm] using h
    have herase := differAt_erase hold.ne_directory
    have hdir' : node? ⟨d.nodes.erase place⟩ target ≠ some .directory :=
      fun heq => hdir (herase.symm.keepsDirs target heq)
    rw [hd']
    have hwrite := differAt_write hdir' contents
    -- The path was followed before the move, and leads to the same place after it.
    refine ⟨target, hresolve, hasFile_write (herase.keepsDirs.resolve hresolve) hdir' contents,
      herase.keepsDirs.trans hwrite.keepsDirs, ?_⟩
    intro other htarget hplace
    rw [← herase.same other hplace]
    exact hwrite.same other htarget

/-! ## Temporary files -/

/-- The temporary name of a `name` without a slash leads to something in a directory. -/
theorem isPlain_temporaryName {name : Text} (hname : byte '/' ∉ name) :
    Path.IsPlain (FileStore.temporaryName name) := by
  have hlength := FileStore.length_temporaryName name
  have hne : ∀ short : Text, short.length < 5 → FileStore.temporaryName name ≠ short := by
    intro short hshort heq
    rw [heq] at hlength
    omega
  refine ⟨?_, hne _ (by decide), hne _ (by decide), hne _ (by decide)⟩
  have hdot : byte '/' ∉ Text.ofString "." := by decide
  have htmp : byte '/' ∉ Text.ofString ".tmp" := by decide
  simp only [FileStore.temporaryName, List.mem_append, hdot, hname, htmp, or_self,
    not_false_eq_true]

/-- Following the temporary name of `name` goes somewhere else than following `name`. -/
theorem follow_temporaryName_ne {name : Text} (hname : byte '/' ∉ name) (rooted : Bool)
    (place : List Text) :
    Path.follow rooted place (FileStore.temporaryName name) ≠ Path.follow rooted place name := by
  have hplain := isPlain_temporaryName hname
  rw [Path.follow_of_isPlain hplain]
  unfold Path.follow
  split
  · exact List.cons_ne_self _ _
  · split
    · cases place with
      | nil =>
        cases rooted with
        | true => exact List.cons_ne_nil _ _
        | false => exact fun heq => hplain.ne_up (List.cons.inj heq).1
      | cons last rest =>
        dsimp only
        split
        · exact fun heq => hplain.ne_up (List.cons.inj heq).1
        · intro heq
          have hlength := congrArg List.length heq
          simp only [List.length_cons] at hlength
          omega
    · exact fun heq => FileStore.temporaryName_ne name (List.cons.inj heq).1

/-- **A file and its temporary file are never at the same place.** -/
theorem temporary_ne {d : Disk} {dir path : Text} {place : Place}
    (h : d.resolve (Path.join dir (Path.base path)) = .ok place) :
    d.resolve (Path.join dir (FileStore.temporaryName (Path.base path))) ≠ .ok place := by
  intro htemporary
  have hplace := eq_of_resolve_clean h
  rw [eq_of_resolve_clean htemporary, Path.isRooted_append,
    Path.isRooted_append dir (Path.base path), Path.trail_append, Path.trail_append] at hplace
  -- Both paths start with the directory, so they differ only in what follows it.
  have htrail := List.append_cancel_right hplace
  rcases Path.base_cases path with hroot | hslash
  · have hnames :
        Path.names (FileStore.temporaryName Path.root) = [Path.here, Text.ofString ".tmp"] := by
      decide
    have hnames' : Path.names Path.root = [[], []] := by decide
    rw [hroot, hnames, hnames'] at htrail
    exact List.cons_ne_self _ _ htrail
  · rw [Path.names_of_not_mem hslash, Path.names_of_not_mem (isPlain_temporaryName hslash).noSlash]
      at htrail
    exact follow_temporaryName_ne hslash _ _ htrail

/-! ## Saving -/

section Store

variable (dir name : Text) (d : Disk)

theorem run_create : ((store dir).create name).run d =
    match d.create (Path.join dir name) with
    | .error failure => (.error failure, d)
    | .ok d' => (.ok {}, d') := by
  show (match d.create (Path.join dir name) with
    | .error failure => (pure (.error failure) : StateM Disk (Except Failure Sink))
    | .ok d' => do
      set d'
      return .ok {}).run d = _
  cases d.create (Path.join dir name) <;> rfl

theorem run_close (sink : Sink) : ((store dir).close name sink).run d =
    (none, d.fill (Path.join dir name) sink.text) := rfl

theorem run_rename (new : Text) : ((store dir).rename name new).run d =
    match d.rename (Path.join dir name) (Path.join dir new) with
    | .error failure => (some failure, d)
    | .ok d' => (none, d') := by
  show (match d.rename (Path.join dir name) (Path.join dir new) with
    | .error failure => (pure (some failure) : StateM Disk (Option Failure))
    | .ok d' => do
      set d'
      return none).run d = _
  cases d.rename (Path.join dir name) (Path.join dir new) <;> rfl

end Store

section Saving

open FileStore

variable {dir name : Text} {layout : Layout} {words : Array Word} {d after : Disk}
  {result : Option SaveError} {states : List Disk}

/-- A file that was made and closed has what was `written` to it. -/
theorem hasFile_of_close {sink written : Sink} {closed : Option Failure} {s₁ s₂ : Disk}
    (hcreate : ((store dir).create name).run d = (.ok sink, s₁))
    (hclose : ((store dir).close name written).run s₁ = (closed, s₂)) :
    sink = {} ∧ ∃ place, d.resolve (Path.join dir name) = .ok place ∧ DifferAt place d s₂ ∧
      s₂.HasFile (Path.join dir name) place written.text := by
  rw [run_create] at hcreate
  rw [run_close] at hclose
  split at hcreate
  · cases hcreate
  · rename_i made hmade
    cases hcreate
    cases hclose
    obtain ⟨place, hresolve, hdiffer, hempty⟩ := hasFile_of_create hmade
    obtain ⟨hdiffer', hfilled⟩ := hasFile_fill hempty written.text
    exact ⟨rfl, place, hresolve, hdiffer.trans hdiffer', hfilled⟩

/-- **Saving that fails touches no place but that of the temporary file.** -/
theorem differAt_of_failed (h : Course (store dir) name layout words d result states)
    (hresult : result ≠ none) (hfinal : states.getLast? = some after) :
    after = d ∨ ∃ place, d.resolve (Path.join dir (temporaryName name)) = .ok place ∧
      DifferAt place d after := by
  cases h with
  | notCreated hcreate =>
    cases hfinal
    rw [run_create] at hcreate
    split at hcreate
    · cases hcreate
      exact .inl rfl
    · cases hcreate
  | notStored hcreate hclose hfailed =>
    cases hfinal
    obtain ⟨-, place, hresolve, hdiffer, hfile⟩ := hasFile_of_close hcreate hclose
    exact .inr ⟨place, hresolve, hdiffer.trans (differAt_remove hfile)⟩
  | notMoved hcreate hwrite hclose hrename =>
    cases hfinal
    obtain ⟨-, place, hresolve, hdiffer, hfile⟩ := hasFile_of_close hcreate hclose
    rw [run_rename] at hrename
    split at hrename
    · cases hrename
      exact .inr ⟨place, hresolve, hdiffer.trans (differAt_remove hfile)⟩
    · cases hrename
  | saved => exact absurd rfl hresult

/-- **Saving that succeeds leaves the image under its name**, and touches no place but this one and
that of the temporary file. -/
theorem hasFile_of_saved (h : Course (store dir) name layout words d none states)
    (hfinal : states.getLast? = some after) :
    ∃ digits place target, layout.digits = .ok digits ∧
      d.resolve (Path.join dir (temporaryName name)) = .ok place ∧
      d.resolve (Path.join dir name) = .ok target ∧
      after.HasFile (Path.join dir name) target (Image.render digits words) ∧ KeepsDirs d after ∧
      ∀ other, other ≠ target → other ≠ place → after.node? other = d.node? other := by
  cases h with
  | saved hcreate hwrite hclose hrename =>
    cases hfinal
    obtain ⟨digits, hdigits, htext⟩ := Image.text_of_write hwrite
    obtain ⟨rfl, place, hresolve, hdiffer, hfile⟩ := hasFile_of_close hcreate hclose
    rw [htext] at hfile
    rw [run_rename] at hrename
    split at hrename
    · cases hrename
    · rename_i moved hmoved
      cases hrename
      obtain ⟨target, htarget, hsaved, hkeeps, hothers⟩ := hasFile_of_rename hfile hmoved
      refine ⟨digits, place, target, hdigits, hresolve, hdiffer.resolve_iff.mp htarget, hsaved,
        hdiffer.keepsDirs.trans hkeeps, ?_⟩
      intro other hother hother'
      exact (hothers other hother hother').trans (hdiffer.same other hother')

/-- **An image that was saved can be opened.** -/
theorem openFile_of_save {digits : Digits} (hdigits : layout.digits = .ok digits)
    (h : ((store dir).save name layout words).run d = (none, after)) :
    after.openFile (Path.join dir name) = .ok ⟨Image.render digits words, none⟩ := by
  obtain ⟨result, final, states, -, hrun, hfinal, hcourse⟩ :=
    course_save (store dir) name layout words d
  rw [h] at hrun
  cases hrun
  obtain ⟨digits', _, target, hdigits', -, -, hfile, -, -⟩ := hasFile_of_saved hcourse hfinal
  rw [hdigits] at hdigits'
  cases hdigits'
  exact hfile.openFile

end Saving

end Disk

end WordMachine
