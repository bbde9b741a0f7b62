import WordMachine.Command.Assemble
import WordMachine.Proofs.Saving

/-!
# The assembling command

A run of the assembling command ends at its first step that fails: opening the source, assembling
it, listing the program, or saving the image. Only the last of these touches the disk, and it leaves
the output file as it was unless it writes the whole image. So the output is written all or nothing,
and the status tells which.

* `assembling_assemble`: the ways in which the command goes.
* `resolve_outputPath_iff`: the path under which the image is saved leads where the output does, if
  the output can be followed and does not end in a slash.
* `assemble_all_or_nothing`: the output is written all or nothing.
* `assemble_output_elsewhere`: the image of a run on an output that ends in a slash, or that goes
  through a missing directory, is not where the output says.
-/

namespace WordMachine.Command

open Text (byte)

/-- The assembler of a command with the `options`. -/
def AssembleOptions.assembler (options : AssembleOptions) : Assembler :=
  { verbose := options.verbose, strict := options.strict }

/-- The path under which `output` is saved: its last name, in its directory. -/
def outputPath (output : Text) : Text :=
  Path.join (Path.dir output) (Path.base output)

/-- The path of the temporary file of `output`, in its directory. -/
def temporaryPath (output : Text) : Text :=
  Path.join (Path.dir output) (FileStore.temporaryName (Path.base output))

section Assembling

variable (options : AssembleOptions) (file output : Text) (stdout : Sink) (d : Disk)

/-- The ways in which the command goes, with its status and the disk after it; the disk before it is
`d`. -/
inductive Assembling : Nat → Disk → Prop
  | notOpened {failure : Failure} (hopen : d.openFile file = .error failure) : Assembling 1 d
  | notAssembled {input : Input} {e : SourceError} (hopen : d.openFile file = .ok input)
      (hparse : (options.assembler.parse input).result = .error e) : Assembling 1 d
  | notListed {input : Input} {p : Program} {failure : Failure}
      (hopen : d.openFile file = .ok input)
      (hparse : (options.assembler.parse input).result = .ok p)
      (hlist : (listIfAsked options p stdout).2 = some failure) : Assembling 1 d
  | notSaved {input : Input} {p : Program} {e : SaveError} {after : Disk}
      (hopen : d.openFile file = .ok input)
      (hparse : (options.assembler.parse input).result = .ok p)
      (hlist : (listIfAsked options p stdout).2 = none)
      (hsave : ((Disk.store (Path.dir output)).save (Path.base output) {} p.image).run d =
        (some e, after)) : Assembling 1 after
  | saved {input : Input} {p : Program} {after : Disk} (hopen : d.openFile file = .ok input)
      (hparse : (options.assembler.parse input).result = .ok p)
      (hlist : (listIfAsked options p stdout).2 = none)
      (hsave : ((Disk.store (Path.dir output)).save (Path.base output) {} p.image).run d =
        (none, after)) : Assembling 0 after

/-- Saving the image of `p` is the last step. -/
theorem assembling_saveProgram {input : Input} {p : Program} (hopen : d.openFile file = .ok input)
    (hparse : (options.assembler.parse input).result = .ok p)
    (hlist : (listIfAsked options p stdout).2 = none) (listed : Sink) (stderr : Text) :
    Assembling options file output stdout d
      ((saveProgram Disk.host output p listed stderr).run d).1.status
      ((saveProgram Disk.host output p listed stderr).run d).2 := by
  have hstore : Disk.host.store = Disk.store := rfl
  unfold saveProgram
  rw [FileStore.run_bind, hstore]
  rcases hsave : ((Disk.store (Path.dir output)).save (Path.base output) {} p.image).run d with
    ⟨_ | e, after⟩
  · exact .saved hopen hparse hlist hsave
  · exact .notSaved hopen hparse hlist hsave

/-- **The command goes one of these ways**, if its `arguments` name a source `file` and an
`output`. -/
theorem assembling_assemble {arguments : List Text}
    (hflags : parseFlags AssembleOptions.flags arguments.tail {} = .ok (options, [file, output])) :
    Assembling options file output stdout d
      ((assemble Disk.host arguments stdout).run d).1.status
      ((assemble Disk.host arguments stdout).run d).2 := by
  have hstart : (Disk.host.openFile file).run d = (d.openFile file, d) := rfl
  have hassembler : { verbose := options.verbose, strict := options.strict : Assembler } =
      options.assembler := rfl
  unfold assemble
  simp only [hflags, FileStore.run_bind, hstart]
  cases hopen : d.openFile file with
  | error failure => exact .notOpened hopen
  | ok input =>
    simp only [assembleInput, hassembler]
    cases hparse : (options.assembler.parse input).result with
    | error e => exact .notAssembled hopen hparse
    | ok p =>
      dsimp only
      rcases hlist : listIfAsked options p stdout with ⟨listed, _ | failure⟩
      · exact assembling_saveProgram _ _ _ _ _ hopen hparse (congrArg Prod.snd hlist) listed _
      · exact .notListed hopen hparse (congrArg Prod.snd hlist)

end Assembling

/-! ## All or nothing -/

section Ends

variable {options : AssembleOptions} {file output : Text} {stdout : Sink} {d after : Disk}
  {status : Nat}

/-- **If the status is not zero, no place but that of the temporary file is touched**: `after` has
the node of `d` at all others. -/
theorem Assembling.same_of_failed (h : Assembling options file output stdout d status after)
    (hstatus : status ≠ 0) {place : Place} (hplace : d.resolve (temporaryPath output) ≠ .ok place) :
    after.node? place = d.node? place := by
  cases h with
  | notOpened => rfl
  | notAssembled => rfl
  | notListed => rfl
  | @notSaved input p e _ hopen hparse hlist hsave =>
    obtain ⟨result, final, states, -, hrun, hfinal, hcourse⟩ :=
      FileStore.course_save (Disk.store (Path.dir output)) (Path.base output) {} p.image d
    rw [hsave] at hrun
    cases hrun
    obtain rfl | ⟨temporary, hresolve, hdiffer⟩ :=
      Disk.differAt_of_failed hcourse (Option.some_ne_none e) hfinal
    · rfl
    · -- The temporary path leads to one place only, which is not this one.
      have hne : place ≠ temporary := fun heq => hplace (heq ▸ hresolve)
      exact hdiffer.same place hne
  | saved => exact absurd rfl hstatus

/-- **If the status is zero, the image is at the place of the output**, no directory is lost, and no
place but this `target` and that of the temporary file is touched. -/
theorem Assembling.hasFile_of_saved (h : Assembling options file output stdout d 0 after) :
    ∃ input p target, d.openFile file = .ok input ∧
      (options.assembler.parse input).result = .ok p ∧
      d.resolve (outputPath output) = .ok target ∧
      after.HasFile (outputPath output) target (Image.render ⟨.hex, 8⟩ p.image) ∧
      Disk.KeepsDirs d after ∧
      ∀ place, place ≠ target → d.resolve (temporaryPath output) ≠ .ok place →
        after.node? place = d.node? place := by
  cases h with
  | @saved input p _ hopen hparse hlist hsave =>
    obtain ⟨result, final, states, -, hrun, hfinal, hcourse⟩ :=
      FileStore.course_save (Disk.store (Path.dir output)) (Path.base output) {} p.image d
    rw [hsave] at hrun
    cases hrun
    obtain ⟨digits, temporary, target, hdigits, htemporary, htarget, hfile, hkeeps, hothers⟩ :=
      Disk.hasFile_of_saved hcourse hfinal
    obtain rfl : (⟨.hex, 8⟩ : Digits) = digits := Except.ok.inj hdigits
    refine ⟨input, p, target, hopen, hparse, htarget, hfile, hkeeps, fun place hne hplace => ?_⟩
    exact hothers place hne fun heq => hplace (heq ▸ htemporary)

/-- The status is zero if and only if no step fails. -/
theorem Assembling.status_eq_zero_iff (h : Assembling options file output stdout d status after) :
    status = 0 ↔ ∃ input p, d.openFile file = .ok input ∧
      (options.assembler.parse input).result = .ok p ∧ (listIfAsked options p stdout).2 = none ∧
      (((Disk.store (Path.dir output)).save (Path.base output) {} p.image).run d).1 = none := by
  constructor
  · rintro rfl
    cases h with
    | saved hopen hparse hlist hsave => exact ⟨_, _, hopen, hparse, hlist, congrArg Prod.fst hsave⟩
  · rintro ⟨input', p', hopen', hparse', hlist', hsave'⟩
    cases h with
    | notOpened hopen =>
      rw [hopen] at hopen'
      cases hopen'
    | notAssembled hopen hparse =>
      rw [hopen] at hopen'
      cases hopen'
      rw [hparse] at hparse'
      cases hparse'
    | notListed hopen hparse hlist =>
      rw [hopen] at hopen'
      cases hopen'
      rw [hparse] at hparse'
      cases hparse'
      rw [hlist] at hlist'
      cases hlist'
    | notSaved hopen hparse hlist hsave =>
      rw [hopen] at hopen'
      cases hopen'
      rw [hparse] at hparse'
      cases hparse'
      rw [hsave] at hsave'
      cases hsave'
    | saved => rfl

/-- **Written to `path` all or nothing.** The disk was `d` before a run with the `status` and is
`after` it: the run either leaves all but `temporary` as it was, or puts the whole image of the
program in `file` where `path` leads, and changes nothing else but `temporary`, which is another
place. -/
structure AllOrNothing (options : AssembleOptions) (file : Text) (d : Disk) (status : Nat)
    (after : Disk) (path temporary : Text) : Prop where
  failed : status ≠ 0 → ∀ place, d.resolve temporary ≠ .ok place →
    after.node? place = d.node? place
  saved : status = 0 → ∃ input p target, d.openFile file = .ok input ∧
    (options.assembler.parse input).result = .ok p ∧ d.resolve path = .ok target ∧
    after.node? target = some (.file (Image.render ⟨.hex, 8⟩ p.image)) ∧
    after.openFile path = .ok ⟨Image.render ⟨.hex, 8⟩ p.image, none⟩ ∧
    ∀ place, place ≠ target → d.resolve temporary ≠ .ok place →
      after.node? place = d.node? place
  apart : ∀ place, d.resolve path = .ok place → d.resolve temporary ≠ .ok place

/-- A run is all or nothing for every path that leads where `outputPath output` does. -/
theorem Assembling.allOrNothing (h : Assembling options file output stdout d status after)
    {path : Text} (hpath : ∀ place, d.resolve path = .ok place ↔
      d.resolve (outputPath output) = .ok place) :
    AllOrNothing options file d status after path (temporaryPath output) where
  failed := fun hstatus _ => h.same_of_failed hstatus
  saved := by
    rintro rfl
    obtain ⟨input, p, target, hopen, hparse, htarget, hfile, hkeeps, hothers⟩ := h.hasFile_of_saved
    have hresolve := (hpath target).mpr htarget
    have hpathFile : after.HasFile path target (Image.render ⟨.hex, 8⟩ p.image) :=
      ⟨hkeeps.resolve hresolve, hfile.node⟩
    exact ⟨input, p, target, hopen, hparse, hresolve, hfile.node, hpathFile.openFile, hothers⟩
  apart := fun place hplace => Disk.temporary_ne ((hpath place).mp hplace)

end Ends

/-! ## The paths of the output and of its temporary file -/

section Paths

variable {d : Disk} {output : Text} {place : Place}

/-- **The output is saved where it says**, if `output` can be followed and does not end in a
slash. -/
theorem resolve_outputPath_iff (hslash : output.getLast? ≠ some (byte '/'))
    (h : d.resolve output = .ok place) (other : Place) :
    d.resolve output = .ok other ↔ d.resolve (outputPath output) = .ok other := by
  rw [h, outputPath, Disk.resolve_join_dir_base hslash h]

/-- **The temporary file is beside the output**, if the output is `name` in a directory that is at
`home`. -/
theorem eq_of_resolve_temporaryPath {folder name : Text} {home : Place}
    (hsplit : Path.Split output folder name) (hname : name ≠ [])
    (hhome : folder = [] ∧ home = [] ∨ d.resolve folder = .ok home)
    (h : d.resolve (temporaryPath output) = .ok place) :
    place = FileStore.temporaryName name :: home := by
  have hplain := Disk.isPlain_temporaryName hsplit.noSlash
  have htemporary := hsplit.sibling hplain.noSlash
  rw [temporaryPath, hsplit.dir_eq, hsplit.base_eq hname, htemporary.join_clean] at h
  rw [Disk.eq_of_resolve_clean h, htemporary.trail_eq, htemporary.isRooted_eq,
    Path.follow_of_isPlain hplain, List.cons_append]
  rcases hhome with ⟨rfl, rfl⟩ | hhome
  · rfl
  · rw [Disk.eq_of_resolve hhome]

end Paths

/-! ## The command -/

/-- **The assembling command writes its output all or nothing.** The image is saved under
`outputPath output`. This is where `output` itself leads, if it can be followed as it is written and
does not end in a slash; then reading `output` gives the image. The temporary file is the only other
one that can change, and it lies beside the output. -/
theorem assemble_all_or_nothing (arguments : List Text) (options : AssembleOptions)
    (file output : Text)
    (hflags : parseFlags AssembleOptions.flags arguments.tail {} = .ok (options, [file, output]))
    (stdout : Sink) (d : Disk) :
    ∃ report after, (assemble Disk.host arguments stdout).run d = (report, after) ∧
      AllOrNothing options file d report.status after (outputPath output) (temporaryPath output) ∧
      (output.getLast? ≠ some (byte '/') → ∀ place, d.resolve output = .ok place →
        d.resolve (outputPath output) = .ok place ∧
        AllOrNothing options file d report.status after output (temporaryPath output)) ∧
      (∀ folder name home, Path.Split output folder name → name ≠ [] →
        (folder = [] ∧ home = [] ∨ d.resolve folder = .ok home) →
        ∀ place, d.resolve (temporaryPath output) = .ok place →
          place = FileStore.temporaryName name :: home) ∧
      (report.status = 0 ↔ ∃ input p, d.openFile file = .ok input ∧
        (options.assembler.parse input).result = .ok p ∧ (listIfAsked options p stdout).2 = none ∧
        (((Disk.store (Path.dir output)).save (Path.base output) {} p.image).run d).1 = none) := by
  have hends := assembling_assemble options file output stdout d hflags
  rcases hrun : (assemble Disk.host arguments stdout).run d with ⟨report, after⟩
  rw [hrun] at hends
  refine ⟨report, after, rfl, hends.allOrNothing fun _ => Iff.rfl, ?_, ?_, hends.status_eq_zero_iff⟩
  · intro hslash place hplace
    have hpath := resolve_outputPath_iff hslash hplace
    exact ⟨(hpath place).mp hplace, hends.allOrNothing hpath⟩
  · intro folder name home hsplit hname hhome place
    exact eq_of_resolve_temporaryPath hsplit hname hhome

/-- A disk with the source `p.s`, and with the output of an earlier run in the directory `out`. -/
def rerunDisk : Disk :=
  (({} : Disk).add "p.s" (.file ".text\n jr $1\n")).add "out/p.mem" (.file "00000000\n")

/-- What the command reports for an `output` on this disk, and the disk after it. -/
def rerun (output : Text) : Outcome × Disk :=
  (assemble Disk.host ["asm32", "p.s", output] {}).run rerunDisk

set_option maxRecDepth 10000 in
/-- A run on `out/../out/p.mem`, with a detour, writes the image where the path leads; a run whose
listing fails on the way leaves the output of the earlier run. -/
theorem assemble_all_or_nothing_rerun :
    ((rerun "out/../out/p.mem").1.status = 0 ∧
      (rerun "out/../out/p.mem").2.openFile "out/../out/p.mem" = .ok ⟨"20000001\n", none⟩ ∧
      (rerun "out/../out/p.mem").2.node? ["p.s"] = rerunDisk.node? ["p.s"]) ∧
    ∃ report after,
      (assemble Disk.host ["asm32", "-l", "p.s", "out/./p.mem"] { bound := some ⟨7, ⟨"full"⟩⟩ }).run
        rerunDisk = (report, after) ∧ report.status = 1 ∧
      after.node? ["p.mem", "out"] = some (.file "00000000\n") := by
  constructor
  · have hstatus : (rerun "out/../out/p.mem").1.status = 0 := by decide +kernel
    have hplace : rerunDisk.resolve "out/../out/p.mem" = .ok ["p.mem", "out"] := by decide +kernel
    have hsource : rerunDisk.HasFile "p.s" ["p.s"] ".text\n jr $1\n" :=
      ⟨by decide +kernel, by decide +kernel⟩
    have hrender : ((AssembleOptions.assembler {}).parse ⟨".text\n jr $1\n", none⟩).result.map
        (fun p => Image.render ⟨.hex, 8⟩ p.image) = .ok "20000001\n" := by decide +kernel
    obtain ⟨report, after, hrun, -, houtput, -, -⟩ :=
      assemble_all_or_nothing ["asm32", "p.s", "out/../out/p.mem"] {} "p.s" "out/../out/p.mem" rfl
        {} rerunDisk
    have hrerun : rerun "out/../out/p.mem" = (report, after) := hrun
    rw [hrerun] at hstatus ⊢
    obtain ⟨input, p, target, hopen, hparse, htarget, -, himage, hothers⟩ :=
      (houtput (by decide) _ hplace).2.saved hstatus
    obtain rfl := Except.ok.inj (hplace.symm.trans htarget)
    obtain rfl := Except.ok.inj (hsource.openFile.symm.trans hopen)
    rw [hparse] at hrender
    have htext : Image.render ⟨.hex, 8⟩ p.image = "20000001\n" := Except.ok.inj hrender
    rw [htext] at himage
    exact ⟨hstatus, himage, hothers _ (by decide) (by decide +kernel)⟩
  · obtain ⟨report, after, hrun, hpath, -, -, -⟩ :=
      assemble_all_or_nothing ["asm32", "-l", "p.s", "out/./p.mem"] { listing := true } "p.s"
        "out/./p.mem" rfl { bound := some ⟨7, ⟨"full"⟩⟩ } rerunDisk
    have hstatus : report.status = 1 := by
      refine (congrArg (fun run => run.1.status) hrun).symm.trans ?_
      decide +kernel
    refine ⟨report, after, hrun, hstatus, (hpath.failed (by rw [hstatus]; decide) _ ?_).trans ?_⟩
    · decide +kernel
    · decide +kernel

set_option maxRecDepth 10000 in
/-- The output `out/` names a directory, and `nosuch/../x` goes through a missing directory and
names nothing; the image is saved all the same, under the path made shortest. -/
theorem assemble_output_elsewhere :
    ((rerun "out/").1.status = 0 ∧ rerunDisk.resolve "out/" = .ok ["out"] ∧
      (rerun "out/").2.node? ["out"] = some .directory ∧
      (∀ text, (rerun "out/").2.openFile "out/" ≠ .ok ⟨text, none⟩) ∧
      rerunDisk.node? ["out", "out"] = none ∧
      (rerun "out/").2.node? ["out", "out"] = some (.file "20000001\n")) ∧
    (rerun "nosuch/../x").1.status = 0 ∧
      (∀ text, (rerun "nosuch/../x").2.openFile "nosuch/../x" ≠ .ok ⟨text, none⟩) ∧
      rerunDisk.node? ["x"] = none ∧
      (rerun "nosuch/../x").2.node? ["x"] = some (.file "20000001\n") := by
  have hdirectory : (rerun "out/").2.find "out/" = .ok (["out"], some .directory) := by
    decide +kernel
  have hmissing : (rerun "nosuch/../x").2.find "nosuch/../x" = .error .notFound := by decide +kernel
  refine ⟨⟨by decide +kernel, by decide +kernel, by decide +kernel, ?_, by decide +kernel,
    by decide +kernel⟩, by decide +kernel, ?_, by decide +kernel, by decide +kernel⟩
  · intro text heq
    rw [Disk.openFile, hdirectory] at heq
    cases heq
  · intro text heq
    rw [Disk.openFile, hmissing] at heq
    cases heq

end WordMachine.Command
