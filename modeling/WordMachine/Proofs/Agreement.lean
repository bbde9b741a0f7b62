import WordMachine.Command.Emulate
import WordMachine.Proofs.Assembling
import WordMachine.Proofs.Emulation

/-!
# A source and its image run alike

The assembling command reads a source and saves the image of its program. The emulating command runs
the source as well as the image: it assembles the source again, or reads the image back, and starts
the program on a machine of the same size.

* `save_of_assemble`: a command that ends with status 0 has saved the image of the program.
* `openFile_output`: the output is opened where the image was saved.
* `emulate_image_agrees`: both runs show the same registers and ticks and give the same status, and
  only the line of an error is lost in the image.
-/

namespace WordMachine

/-- A path that can be opened is not empty. -/
theorem Disk.isEmpty_of_openFile {d : Disk} {path : Text} {input : Input}
    (h : d.openFile path = .ok input) : path.isEmpty = false := by
  cases path with
  | nil => cases h
  | cons => rfl

namespace Command

/-! ## Arguments -/

/-- Flags take arguments away, so `arguments` that are all left over hold no flag. -/
theorem parseFlags_operands {σ : Type} {flags : List (Flag σ)} {arguments : List Text} {s o : σ}
    {rest : List Text} (h : parseFlags flags arguments s = .ok (o, rest)) :
    rest.length ≤ arguments.length ∧
      (rest.length = arguments.length → o = s ∧ rest = arguments) := by
  fun_induction parseFlags flags arguments s with
  | case1 | case2 =>
    cases h
    exact ⟨Nat.le_refl _, fun _ => ⟨rfl, rfl⟩⟩
  | case3 =>
    cases h
    exact ⟨Nat.le_succ _, fun hlength => absurd hlength (by simp)⟩
  | case7 _ _ _ _ _ _ _ _ _ _ ih | case9 _ _ _ _ _ _ _ _ _ _ ih =>
    have hshorter := (ih h).1
    rw [List.length_cons]
    exact ⟨by omega, fun hlength => by omega⟩
  | case12 _ _ _ _ _ _ _ _ _ _ _ ih =>
    have hshorter := (ih h).1
    rw [List.length_cons, List.length_cons]
    exact ⟨by omega, fun hlength => by omega⟩
  | case4 | case5 | case6 | case8 | case10 | case11 | case13 => cases h

/-! ## Assembling -/

/-- An assembling command with the arguments `source` and `output` that ends well has taken them for
its files. -/
theorem parseFlags_of_assemble {name source output : Text} {stdout : Sink} {d after : Disk}
    {report : Outcome}
    (hrun : (assemble Disk.host [name, source, output] stdout).run d = (report, after))
    (hstatus : report.status = 0) :
    parseFlags AssembleOptions.flags [source, output] {} = .ok ({}, [source, output]) := by
  unfold assemble at hrun
  dsimp only [List.tail_cons] at hrun
  cases hflags : parseFlags AssembleOptions.flags [source, output] {} with
  | error e =>
    rw [hflags] at hrun
    cases hrun
    cases hstatus
  | ok parsed =>
    obtain ⟨options, rest⟩ := parsed
    obtain ⟨-, hoperands⟩ := parseFlags_operands hflags
    rw [hflags] at hrun
    split at hrun
    · rename_i heq
      cases heq
    · rename_i heq
      cases heq
      -- Two arguments are left of two, so no flag took one away.
      obtain ⟨rfl, hrest⟩ := hoperands rfl
      rw [hrest]
    · cases hrun
      cases hstatus

section Assembled

variable {name source output : Text} {stdout : Sink} {d after : Disk} {report : Outcome}
  (hrun : (assemble Disk.host [name, source, output] stdout).run d = (report, after))
  (hstatus : report.status = 0)

include hrun hstatus

theorem assembling_of_assemble : Assembling {} source output stdout d 0 after := by
  have hflags := parseFlags_of_assemble hrun hstatus
  have hends := @assembling_assemble {} source output stdout d [name, source, output] hflags
  rw [hrun] at hends
  dsimp only at hends
  rwa [hstatus] at hends

/-- **An assembling command that ends well** has assembled the `source` and saved the image of the
program `p` under the last name of `output`, in its directory. -/
theorem save_of_assemble :
    ∃ input p, d.openFile source = .ok input ∧ (({} : Assembler).parse input).result = .ok p ∧
      ((Disk.store (Path.dir output)).save (Path.base output) {} p.image).run d =
        (none, after) := by
  cases assembling_of_assemble hrun hstatus with
  | saved hopen hparse hlist hsave => exact ⟨_, _, hopen, hparse, hsave⟩

/-- **The output is opened where the image was saved**, if `output` can be followed and does not end
in a slash. -/
theorem openFile_output {place : Place} (hslash : output.getLast? ≠ some (Text.byte '/'))
    (hplace : d.resolve output = .ok place) :
    after.openFile output = after.openFile (Path.join (Path.dir output) (Path.base output)) := by
  obtain ⟨_, _, target, -, -, htarget, hfile, hkeeps, -⟩ :=
    (assembling_of_assemble hrun hstatus).hasFile_of_saved
  have hresolve := (resolve_outputPath_iff hslash hplace target).mpr htarget
  have houtput : after.HasFile output target _ := ⟨hkeeps.resolve hresolve, hfile.node⟩
  exact houtput.openFile.trans hfile.openFile.symm

end Assembled

/-! ## Emulating -/

/-- The emulator that starts the program `p`, with a data memory of the size that the options ask
for. -/
def EmulateOptions.start (options : EmulateOptions) (p : Program) : Emulator :=
  Emulator.reset { Emulator.new options.dataSize with program := p, verbose := options.verbose }

/-- The output with the registers and the number of ticks of a machine. -/
def shown (stdout : Sink) (m : Machine) : Sink :=
  ((stdout.write m.text).1.write (line (Message.format "ticks: %d" [.int m.ticks]))).1

/-- What the command leaves behind after a `run`; there is nothing if the run never ends. -/
def outcome? (stdout : Sink) (stderr : Text) (run : Emulator × RunEnd) : Option Outcome :=
  match run.2 with
  | .done => some ⟨0, shown stdout run.1.machine, stderr⟩
  | .failed error => some ⟨1, shown stdout run.1.machine, stderr ++ line error.message⟩
  | .endless => none

/-- A run that is not verbose writes to the error output only the error that ends it, after what was
in `stderr`. -/
theorem runProgram_quiet {options : EmulateOptions} (hquiet : options.verbose = false)
    (p : Program) (stdout : Sink) (stderr : Text) :
    runProgram options p stdout stderr =
      outcome? stdout stderr ((options.start p).run options.maxTicks) := by
  have hstart : (options.start p).Quiet := Emulator.quiet_reset ⟨hquiet, rfl⟩
  have hend := Emulator.quiet_run options.maxTicks hstart
  rcases hrun : (options.start p).run options.maxTicks with ⟨e, ending⟩
  rw [hrun] at hend
  have hlog : e.log = #[] := hend.2
  unfold EmulateOptions.start at hrun
  cases ending with
  | done | failed | endless =>
    simp only [runProgram, outcome?, shown, hrun, hlog, logText, Array.toList_empty,
      List.flatMap_nil, List.append_nil]

/-- A source that is not read verbosely gives its program `p` and its warnings. -/
theorem loadSource_quiet {file : Text} {input : Input} {p : Program}
    (hparse : (({} : Assembler).parse input).result = .ok p) :
    loadSource false file input = ⟨.ok p, warningLines file p.warnings⟩ := by
  have hlog : (({} : Assembler).parse input).log = [] := by
    unfold Assembler.parse
    dsimp only
    split
    · rfl
    · rfl
  simp only [loadSource, hparse, hlog, logText, List.flatMap_nil, List.nil_append]

/-- An image that was written in full width is read back: the program is that of `words`. -/
theorem loadImage_render (file : Text) (words : Array Word) :
    loadImage file ⟨Image.render ⟨.hex, 8⟩ words, none⟩ = ⟨.ok (.ofImage words), []⟩ := by
  have hdigits : ({} : Layout).digits = .ok ⟨.hex, 8⟩ := rfl
  have hkept : words.map (Image.kept ⟨.hex, 8⟩) = words := by
    rw [funext Image.kept_full, Array.map_id']
  simp only [loadImage, Image.read_render hdigits (by decide) (by decide), hkept]

/-- The emulating command runs the program `p` that it loads, and leaves the disk `d` as it is. -/
theorem emulate_run {arguments : List Text} {options : EmulateOptions} {stdout : Sink} {d : Disk}
    {file stderr : Text} {input : Input} {p : Program}
    (hflags : parseFlags EmulateOptions.flags arguments.tail {} = .ok (options, []))
    (hone : (options.source.isEmpty == options.image.isEmpty) = false)
    (hquiet : options.verbose = false)
    (hfile : (if options.source.isEmpty then options.image else options.source) = file)
    (hopen : d.openFile file = .ok input)
    (hload : (if options.source.isEmpty then loadImage file input
      else loadSource false file input) = ⟨.ok p, stderr⟩) :
    (emulate Disk.host arguments stdout).run d =
      (outcome? stdout stderr ((options.start p).run options.maxTicks), d) := by
  have hemulate : (emulate Disk.host arguments stdout).run d =
      (emulateFile Disk.host options stdout).run d := by
    simp only [emulate, hflags, hone]
    rfl
  rw [hemulate, emulateFile]
  simp only [hfile, hquiet, Disk.host, StateT.run_bind, StateT.run_get, pure_bind, StateT.run_pure,
    hopen, hload, runProgram_quiet hquiet]
  rfl

/-- The emulating command on a source. -/
theorem emulate_source {arguments : List Text} {options : EmulateOptions} {stdout : Sink}
    {d : Disk} {source : Text} {input : Input} {p : Program}
    (hflags : parseFlags EmulateOptions.flags arguments.tail {} =
      .ok ({ options with source := source, image := [] }, []))
    (hquiet : options.verbose = false) (hopen : d.openFile source = .ok input)
    (hparse : (({} : Assembler).parse input).result = .ok p) :
    (emulate Disk.host arguments stdout).run d =
      (outcome? stdout (warningLines source p.warnings)
        ((options.start p).run options.maxTicks), d) := by
  have hsource := Disk.isEmpty_of_openFile hopen
  refine (emulate_run hflags ?_ hquiet ?_ hopen ?_).trans rfl
  · simp [hsource]
  · simp [hsource]
  · simpa [hsource] using loadSource_quiet hparse

/-- The emulating command on an image. -/
theorem emulate_image {arguments : List Text} {options : EmulateOptions} {stdout : Sink}
    {d : Disk} {image : Text} {words : Array Word}
    (hflags : parseFlags EmulateOptions.flags arguments.tail {} =
      .ok ({ options with source := [], image := image }, []))
    (hquiet : options.verbose = false)
    (hopen : d.openFile image = .ok ⟨Image.render ⟨.hex, 8⟩ words, none⟩) :
    (emulate Disk.host arguments stdout).run d =
      (outcome? stdout [] ((options.start (.ofImage words)).run options.maxTicks), d) := by
  have himage := Disk.isEmpty_of_openFile hopen
  refine (emulate_run hflags ?_ hquiet ?_ hopen ?_).trans rfl
  · simp [himage]
  · rfl
  · exact loadImage_render image words

/-! ## Agreement -/

/-- Started with `p.image`, a machine runs as with `p`; only the line of an error is lost, by
`unplaced`. -/
theorem run_start_ofImage (options : EmulateOptions) (p : Program) :
    (options.start (.ofImage p.image)).run options.maxTicks =
      (((options.start p).run options.maxTicks).1.withProgram (.ofImage p.image),
        ((options.start p).run options.maxTicks).2.unplaced) := by
  have hstart : options.start (.ofImage p.image) =
      (options.start p).withProgram (.ofImage p.image) :=
    Emulator.reset_ofImage
      { Emulator.new options.dataSize with program := p, verbose := options.verbose }
  rw [hstart, Emulator.run_withProgram (Program.lineAt_ofImage p.image)]

/-- The two outputs and statuses after runs that differ in the line of an error only, whatever
`stderr` was before. -/
theorem map_outcome?_unplaced (stdout : Sink) (stderr stderr' : Text) (run : Emulator × RunEnd)
    (q : Program) :
    (outcome? stdout stderr (run.1.withProgram q, run.2.unplaced)).map
        (fun o => (o.stdout, o.status)) =
      (outcome? stdout stderr' run).map fun o => (o.stdout, o.status) := by
  obtain ⟨e, ending⟩ := run
  cases ending with
  | done | failed | endless => rfl

/-- **A source and its image run alike.** Once a source is assembled and still in its place, with
`image` a path to the file that was saved (by `openFile_output`, `output` is one), the emulating
command ends on both with the same machine, the same output and the same status, or on neither; the
error of the image has line 0. -/
theorem emulate_image_agrees {name source output image : Text} {listing stdout : Sink}
    {d after : Disk} {report : Outcome} {limits : EmulateOptions}
    {sourceArguments imageArguments : List Text}
    (hassemble : (assemble Disk.host [name, source, output] listing).run d = (report, after))
    (hstatus : report.status = 0)
    (hsource : after.openFile source = d.openFile source)
    (himage : after.openFile image =
      after.openFile (Path.join (Path.dir output) (Path.base output)))
    (hquiet : limits.verbose = false)
    (hsourceFlags : parseFlags EmulateOptions.flags sourceArguments.tail {} =
      .ok ({ limits with source := source, image := [] }, []))
    (himageFlags : parseFlags EmulateOptions.flags imageArguments.tail {} =
      .ok ({ limits with source := [], image := image }, [])) :
    ∃ input p, d.openFile source = .ok input ∧ (({} : Assembler).parse input).result = .ok p ∧
      ∃ sourceRun imageRun : Emulator × RunEnd,
        sourceRun = (limits.start p).run limits.maxTicks ∧
        imageRun = (limits.start (.ofImage p.image)).run limits.maxTicks ∧
        (emulate Disk.host sourceArguments stdout).run after =
          (outcome? stdout (warningLines source p.warnings) sourceRun, after) ∧
        (emulate Disk.host imageArguments stdout).run after =
          (outcome? stdout [] imageRun, after) ∧
        imageRun.1.machine = sourceRun.1.machine ∧
        imageRun.2 = sourceRun.2.unplaced ∧
        ((emulate Disk.host imageArguments stdout).run after).1.map
            (fun o => (o.stdout, o.status)) =
          ((emulate Disk.host sourceArguments stdout).run after).1.map
            fun o => (o.stdout, o.status) := by
  obtain ⟨input, p, hopen, hparse, hsave⟩ := save_of_assemble hassemble hstatus
  have hsaved := Disk.openFile_of_save (show ({} : Layout).digits = .ok ⟨.hex, 8⟩ from rfl) hsave
  have hrunSource := @emulate_source sourceArguments limits stdout after source input p
    hsourceFlags hquiet (hsource.trans hopen) hparse
  have hrunImage := @emulate_image imageArguments limits stdout after image p.image
    himageFlags hquiet (himage.trans hsaved)
  refine ⟨input, p, hopen, hparse, _, _, rfl, rfl, hrunSource, hrunImage, ?_, ?_, ?_⟩
  · rw [run_start_ofImage]
    rfl
  · rw [run_start_ofImage]
  · rw [hrunImage, hrunSource, run_start_ofImage]
    exact map_outcome?_unplaced ..

/-- A disk with a source whose last line, `lw $3, 9($0)`, fails if the memory has 8 words. -/
def faultyDisk : Disk :=
  ({} : Disk).add "p.s" (.file
    ".text\naddi $1, $0, 7\n sw $1, 2($0)\n andi $2, $1, 3\n lw $3, 9($0)\n")

set_option maxRecDepth 10000 in
/-- The fault of the last line shows the same registers, and line 0 in place of line 5. -/
theorem emulate_image_agrees_faulty :
    ∃ report after, (assemble Disk.host ["asm32", "p.s", "p.mem"] {}).run faultyDisk =
        (report, after) ∧ report.status = 0 ∧
      after.openFile "p.s" = faultyDisk.openFile "p.s" ∧
      ((emulate Disk.host ["emu32", "-m", "p.mem", "-n", "50", "-ram", "8"] {}).run after).1.map
          (fun o => (o.stdout, o.status)) =
        ((emulate Disk.host ["emu32", "-c", "p.s", "-n", "50", "-ram", "8"] {}).run after).1.map
          (fun o => (o.stdout, o.status)) ∧
      ((emulate Disk.host ["emu32", "-m", "p.mem", "-n", "50", "-ram", "8"] {}).run after).1.map
          (fun o => (o.status, o.stderr)) =
        some (1, Text.ofString
          "line 0 bad opcode 0x40c00009 lw $3, 9($0)\naddress 0x9 out of range\n") := by
  have hstatus :
      ((assemble Disk.host ["asm32", "p.s", "p.mem"] {}).run faultyDisk).1.status = 0 := by
    decide +kernel
  have hkept : ((assemble Disk.host ["asm32", "p.s", "p.mem"] {}).run faultyDisk).2.openFile "p.s" =
      faultyDisk.openFile "p.s" := rfl
  have hplace : faultyDisk.resolve "p.mem" = .ok ["p.mem"] := by decide +kernel
  have himage := @openFile_output "asm32" "p.s" "p.mem" {} faultyDisk _ _ rfl hstatus _ (by decide)
    hplace
  refine ⟨_, _, rfl, hstatus, hkept, ?_, by decide +kernel⟩
  obtain ⟨_, _, -, -, _, _, -, -, -, -, -, -, hagree⟩ :=
    @emulate_image_agrees "asm32" "p.s" "p.mem" "p.mem" {} {} faultyDisk _ _
      { maxTicks := 50, dataSize := 8 }
      ["emu32", "-c", "p.s", "-n", "50", "-ram", "8"]
      ["emu32", "-m", "p.mem", "-n", "50", "-ram", "8"]
      rfl hstatus hkept himage rfl rfl rfl
  exact hagree

end Command

end WordMachine
