import CrossAssembler.CommandLine.Arguments
import CrossAssembler.Proofs.CommandLine.Selection

/-!
# What the assembler leaves behind

A script may print and save several times before it ends, and several of its acts may name the same
file.  What it leaves behind depends on the order of its acts: the last act that saves to a file
decides what the file holds, and if a script does not end for a file that cannot be written, then
all its acts have been carried out.

The assembler reads its target and its source before it acts.  If one of them is refused, it only
reports, so the files stay as they are and nothing is printed.  If not, then saving the image is the
last of its acts that touches a file.  So the file holds the image at the end, even if the listing
has been saved to the same file before, or the source was read from it.

## Main results

* `Directory.read_of_write` — what has been written to a file can be read from it.
* `performActions_of_quiet` — quiet acts leave the files and what is printed as they are.
* `read_of_performActions` — what was saved last is there at the end.
* `exit_settles_output` — what the exit code of the assembler says about its output.
-/

namespace CrossAssembler
namespace CommandLine

/-! ### Files -/

namespace Directory

theorem contents?_put (d : Directory) (path : List String) (contents : ByteArray) :
    (d.put path contents).contents? path = some contents := by
  simp [put, contents?]

theorem read_put (d : Directory) {path : String} (contents : ByteArray) (hpath : ¬ path.isEmpty)
    (hslash : ¬ endsInSlash path) : (d.put (names path) contents).read path = .ok contents := by
  rw [read, if_neg hpath, contents?_put]
  exact if_neg hslash

/-- **What has been written to a file can be read from it.** -/
theorem read_of_write {d d' : Directory} {path : String} {contents : ByteArray}
    (h : d.write path contents = .ok d') : d'.read path = .ok contents := by
  unfold write at h
  split at h
  · cases h
  · rename_i hpath
    split at h
    · -- there is such a file
      split at h
      · cases h
      · rename_i hslash
        cases h
        exact d.read_put contents hpath hslash
    · -- there is a directory for it
      split at h
      · cases h
      · split at h
        · cases h
        · split at h
          · split at h
            · cases h
            · rename_i hslash
              cases h
              exact d.read_put contents hpath hslash
          · cases h

end Directory

/-! ### Acts -/

/-- **Quiet acts leave the files and what is printed as they are.** -/
theorem performActions_of_quiet {actions : List Action} (h : ∀ a ∈ actions, a.isQuiet = true)
    (exit : ExitCode) (stdout stderr : String) (d : Directory) :
    ∃ stderr', performActions exit actions stdout stderr d = ⟨exit, stdout, stderr', d⟩ := by
  induction actions generalizing stderr with
  | nil => exact ⟨stderr, rfl⟩
  | cons action rest ih =>
    obtain ⟨hfirst, hrest⟩ := List.forall_mem_cons.mp h
    cases action with
    | log event => exact ih hrest stderr
    | report line => exact ih hrest _
    | print text | save path text => cases hfirst

/-- Acts that do not end for a file that cannot be written are followed by what comes next. -/
theorem performActions_append (exit : ExitCode) (actions rest : List Action)
    (stdout stderr : String) (d : Directory) :
    (performActions exit (actions ++ rest) stdout stderr d).exit = .ioError ∨
      ∃ stdout' stderr' d', performActions exit (actions ++ rest) stdout stderr d =
        performActions exit rest stdout' stderr' d' := by
  induction actions generalizing stdout stderr d with
  | nil => exact .inr ⟨stdout, stderr, d, rfl⟩
  | cons action actions ih =>
    cases action with
    | log _ | print _ | report _ => exact ih _ _ _
    | save path text =>
      rw [List.cons_append, performActions]
      cases d.write path text.toUTF8 with
      | ok d' => exact ih stdout stderr d'
      | error e => exact .inl rfl

/-- **What was saved last is there at the end**, whatever has been saved before, unless a file could
not be written. -/
theorem read_of_performActions {exit : ExitCode} {before after : List Action}
    {path text stdout stderr : String} {d : Directory}
    (hafter : ∀ a ∈ after, a.isQuiet = true)
    (hexit : (performActions exit (before ++ .save path text :: after) stdout stderr d).exit ≠
      .ioError) :
    (performActions exit (before ++ .save path text :: after) stdout stderr d).directory.read path =
      .ok text.toUTF8 := by
  rcases performActions_append exit before (.save path text :: after) stdout stderr d with
    hfailed | ⟨stdout', stderr', d', hperform⟩
  · exact absurd hfailed hexit
  · rw [hperform] at hexit ⊢
    rw [performActions] at hexit ⊢
    cases hwrite : d'.write path text.toUTF8 with
    | error e =>
      rw [hwrite] at hexit
      exact absurd rfl hexit
    | ok d'' =>
      obtain ⟨stderr'', hquiet⟩ := performActions_of_quiet hafter exit stdout' stderr' d''
      simp only [hquiet]
      exact Directory.read_of_write hwrite

/-! ### The assembler -/

/-- Saving the image is the last act of the output. -/
theorem exists_outputActions_eq {o : AssemblerOptions} {path : String} (h : o.output = some path)
    (pretty : Listing.Json → String) (lowered : Lowering.Lowered) :
    ∃ before, outputActions pretty o lowered =
      before ++ [.save path (Rom.Image.ofCode lowered.program.instructions).vhdl] := by
  rw [outputActions, h]
  exact ⟨_, rfl⟩

/-- A quiet script leaves everything as it is. -/
theorem exists_perform_eq {script : Script} (h : script.Quiet) (d : Directory) :
    ∃ stderr, script.perform d = ⟨script.exit, "", stderr, d⟩ :=
  performActions_of_quiet h script.exit "" "" d

/-- **The exit code of the assembler settles what it leaves behind.**  If it exits for its target or
its source, then every file is as before, and nothing has been printed.  If an output file is given
and it exits in good order, for a fault or for a difference between the runs, then the file holds
the text of the image of the source, lowered onto the target.  Nothing is said about which files are
named, so the output may go to the file of the source or of the listing. -/
theorem exit_settles_output (yaml : Target.Format) (pretty : Listing.Json → String)
    (o : AssemblerOptions) (d : Directory) :
    let outcome := (assembler yaml pretty o d.read).perform d
    (outcome.exit = .configError ∨ outcome.exit = .readerError →
      outcome.directory = d ∧ outcome.stdout = "") ∧
    ∀ path, o.output = some path →
      outcome.exit = .success ∨ outcome.exit = .executionFault ∨ outcome.exit = .verifyMismatch →
      ∃ t source lowered, o.target.select yaml d.read = .ok t ∧
        readSource d.read o.input = .ok source ∧
        Lowering.lower source t.registers.toNat = .ok lowered ∧
        outcome.directory.read path =
          .ok (Rom.Image.ofCode lowered.program.instructions).vhdl.toUTF8 := by
  intro outcome
  cases course_assembler yaml pretty o d.read with
  | noTarget _ hquiet hexit | noSource _ _ hquiet hexit =>
    obtain ⟨stderr, houtcome⟩ := exists_perform_eq hquiet d
    have hrefused : outcome = ⟨_, "", stderr, d⟩ := houtcome
    rw [hrefused, hexit]
    refine ⟨fun _ => ⟨rfl, rfl⟩, fun path _ hcode => ?_⟩
    rcases hcode with hcode | hcode | hcode <;> cases hcode
  | @output t source lowered before after ht hsource hlower hactions _ hafter hexit =>
    refine ⟨fun hcode => ?_, fun path hpath hcode => ⟨t, source, lowered, ht, hsource, hlower, ?_⟩⟩
    · -- it exits as the script says, or for a file that cannot be written
      have hother : outcome.exit = (assembler yaml pretty o d.read).exit ∨
          outcome.exit = .ioError := exit_performActions _ _ "" "" d
      rcases hother with hother | hother
      · rw [hother] at hcode
        rcases hexit with hexit | hexit | hexit <;> simp [hexit] at hcode
      · simp [hother] at hcode
    · obtain ⟨front, hfront⟩ := exists_outputActions_eq hpath pretty lowered
      have hsplit : (assembler yaml pretty o d.read).actions = (before ++ front) ++
          .save path (Rom.Image.ofCode lowered.program.instructions).vhdl :: after := by
        rw [hactions, hfront]
        simp
      have hwritten : outcome.exit ≠ .ioError := by
        rcases hcode with hcode | hcode | hcode <;> simp [hcode]
      have houtcome : outcome = performActions (assembler yaml pretty o d.read).exit
          ((before ++ front) ++
            .save path (Rom.Image.ofCode lowered.program.instructions).vhdl :: after) "" "" d := by
        rw [← hsplit]
        rfl
      rw [houtcome] at hwritten ⊢
      exact read_of_performActions hafter hwritten

/-- The output goes to the file of the source, and so does the listing before it.  With a register
file that is too small, the same file is left alone. -/
theorem exit_settles_output_same :
    let arguments := ["-i", "a.s", "-o", "./a.s", "--listing-json=a.s", "--verify",
      "--memory-size=1"]
    let o : String → AssemblerOptions := fun registers => {
      input := "a.s", target := ⟨none, some registers, some "1", none⟩, logLevel := none,
      output := some "./a.s", listing := false, listingJson := some "a.s", verify := true }
    let d : Directory := .ofFiles [("a.s", "AFC 0 5\n".toUTF8)]
    let good := (assembler Yaml.format Listing.Json.pretty (o "3") d.read).perform d
    let bad := (assembler Yaml.format Listing.Json.pretty (o "1") d.read).perform d
    AssemblerOptions.parse parse (arguments ++ ["-r3"]) = .ok (o "3") ∧ good.exit = .success ∧
      good.directory.read "./a.s" = .ok (Text.unlines ["constant ROM : memory := (",
        "(x\"15010500\"),", "(x\"17000100\"),", "others => (x\"00000000\"));"]).toUTF8 ∧
      AssemblerOptions.parse parse (arguments ++ ["-r1"]) = .ok (o "1") ∧ bad.exit = .configError ∧
      bad.directory = d ∧ bad.stdout = "" := by
  intro arguments o d good bad
  have hgood : good.exit = .success := by decide +kernel
  have hbad : bad.exit = .configError := by decide +kernel
  obtain ⟨-, hwritten⟩ := exit_settles_output Yaml.format Listing.Json.pretty (o "3") d
  obtain ⟨t, source, lowered, ht, hsource, hlower, hread⟩ := hwritten "./a.s" rfl (.inl hgood)
  have htarget : (o "3").target.select Yaml.format d.read = .ok ⟨3, 1, 5000⟩ := by decide +kernel
  have hprogram : readSource d.read (o "3").input = .ok [⟨.known .afc, 0, 5, 0⟩] := by
    decide +kernel
  have htext : (Lowering.lower [⟨.known .afc, 0, 5, 0⟩] 3).map (fun lowered =>
      (Rom.Image.ofCode lowered.program.instructions).vhdl) =
        .ok (Text.unlines ["constant ROM : memory := (", "(x\"15010500\"),",
          "(x\"17000100\"),", "others => (x\"00000000\"));"]) := by decide +kernel
  rw [htarget] at ht
  cases ht
  rw [hprogram] at hsource
  cases hsource
  have hlower' : Lowering.lower [⟨.known .afc, 0, 5, 0⟩] 3 = .ok lowered := hlower
  rw [hlower'] at htext
  have hvhdl := Except.ok.inj htext
  simp only at hvhdl
  rw [hvhdl] at hread
  exact ⟨by decide +kernel, hgood, hread, by decide +kernel, hbad,
    (exit_settles_output Yaml.format Listing.Json.pretty (o "1") d).1 (.inl hbad)⟩

end CommandLine
end CrossAssembler
