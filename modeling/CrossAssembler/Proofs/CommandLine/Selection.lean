import CrossAssembler.CommandLine.Runner
import CrossAssembler.Proofs.CommandLine.SourceFile
import CrossAssembler.Proofs.CommandLine.Verification

/-!
# The target that the settings select

A target comes from three places: the defaults, a target file and the command line.  What a later
place says replaces what an earlier one says, field by field.  A target file has to describe a
target that can be used, even if the command line replaces what is wrong with it, and what comes out
at the end has to be a target that can be used as well.

A target that can be used has a register file that can be lowered onto.  So once a target has been
selected, lowering cannot fail, and neither of the programs ever exits for that reason.

## Main definitions

* `Target.Usable` — a target that can be used, field by field.
* `Target.merge` — a target with other values in some of its fields.
* `Denotes` — the number that a setting denotes.
* `Base` — the target that the fields given on the command line are put into.

## Main results

* `select_eq_ok_iff` — which settings select a target, and which.
* `exists_lower_of_select` — every program can be lowered onto a target that was selected.
* `course_assembler` — what the assembler does, case by case.
* `selection_is_merge` — all of this, and what follows for the two programs.
-/

namespace CrossAssembler

/-! ### Targets -/

namespace Target

/-- The target can be used. -/
structure Usable (t : Target) : Prop where
  /-- There is a register to allocate. -/
  two_le_registers : 2 ≤ t.registers.toNat
  /-- Register numbers fit in a byte. -/
  registers_le : t.registers.toNat ≤ 256
  /-- There is a memory cell. -/
  memorySize_pos : 0 < t.memorySize.toNat
  /-- An instruction may be executed. -/
  maxIterations_pos : 0 < t.maxIterations.toNat

/-- **A target passes if it can be used**, and then it is not changed. -/
theorem validate_eq_ok_iff {t c : Target} : t.validate = .ok c ↔ c = t ∧ t.Usable := by
  have hpos : ∀ n : UInt64, n ≠ 0 ↔ 0 < n.toNat := fun n => by
    rw [Nat.pos_iff_ne_zero, ne_eq, ne_eq, ← UInt64.toNat_inj]
    rfl
  constructor
  · intro h
    rw [validate] at h
    split at h
    · cases h
    · rename_i hregisters
      split at h
      · cases h
      · rename_i hmemory
        split at h
        · cases h
        · rename_i hiterations
          cases h
          obtain ⟨hleast, hmost⟩ := Decidable.not_not.mp hregisters
          exact ⟨rfl, hleast, hmost, (hpos _).mp hmemory, (hpos _).mp hiterations⟩
  · rintro ⟨rfl, husable⟩
    have hregisters : RegisterFile.Supported c.registers.toNat :=
      ⟨husable.two_le_registers, husable.registers_le⟩
    rw [validate, if_neg (not_not_intro hregisters), if_neg ((hpos _).mpr husable.memorySize_pos),
      if_neg ((hpos _).mpr husable.maxIterations_pos)]

/-- The target with the values that are given instead of its own. -/
def merge (base : Target) (registers memorySize maxIterations : Option UInt64) : Target where
  registers := registers.getD base.registers
  memorySize := memorySize.getD base.memorySize
  maxIterations := maxIterations.getD base.maxIterations

/-- The target with the value of one field replaced, if there is another one. -/
def replace (t : Target) (field : Field) (value : Option UInt64) : Target :=
  value.elim t (t.set field)

/-- Three fields one after the other are the same as three fields at once. -/
theorem replace_replace_replace (t : Target) (r m i : Option UInt64) :
    ((t.replace .registers r).replace .memorySize m).replace .maxIterations i = t.merge r m i := by
  cases r with
  | none => cases m <;> cases i <;> rfl
  | some r => cases m <;> cases i <;> rfl

end Target

namespace CommandLine

/-! ### Selecting a target -/

/-- The text is a decimal numeral, perhaps behind a plus sign, and denotes the number. -/
def Denotes (text : String) (v : UInt64) : Prop := Numeral.Unsigned text.toList v.toNat

/-- The target that the fields given on the command line are put into. -/
inductive Base (yaml : Target.Format) (read : String → Except FileError ByteArray) :
    Option String → Target → Prop
  /-- No file is named. -/
  | default : Base yaml read none .default
  /-- The file is there, describes a target, and this target can be used as it is. -/
  | file {path text : String} {contents : ByteArray} {t : Target} :
      read path = .ok contents → String.fromUTF8? contents = some text →
      Target.parse yaml text = .ok t → t.Usable → Base yaml read (some path) t

/-- A computation that goes on with the value of another one succeeds if both do. -/
theorem bind_eq_ok_iff {ε α β : Type} {x : Except ε α} {f : α → Except ε β} {b : β} :
    x >>= f = .ok b ↔ ∃ a, x = .ok a ∧ f a = .ok b := by
  cases x with
  | error e =>
    constructor
    · intro h
      cases h
    · rintro ⟨a, h, -⟩
      cases h
  | ok a =>
    constructor
    · intro h
      exact ⟨a, rfl, h⟩
    · rintro ⟨a', h, hb⟩
      cases h
      exact hb

theorem mapError_eq_ok_iff {ε ε' α : Type} {x : Except ε α} {f : ε → ε'} {a : α} :
    x.mapError f = .ok a ↔ x = .ok a := by
  cases x <;> simp [Except.mapError]

section

variable {yaml : Target.Format} {read : String → Except FileError ByteArray} {path : String}
variable {t t' c : Target}

theorem ofYaml_eq_ok_iff {text : String} :
    Target.ofYaml yaml text = .ok t ↔ Target.parse yaml text = .ok t ∧ t.Usable := by
  have hbind : Target.ofYaml yaml text = Target.parse yaml text >>= Target.validate := rfl
  rw [hbind, bind_eq_ok_iff]
  constructor
  · rintro ⟨t', hparse, hvalidate⟩
    obtain ⟨rfl, husable⟩ := Target.validate_eq_ok_iff.mp hvalidate
    exact ⟨hparse, husable⟩
  · rintro ⟨hparse, husable⟩
    exact ⟨t, hparse, Target.validate_eq_ok_iff.mpr ⟨rfl, husable⟩⟩

theorem readTarget_eq_ok_iff :
    readTarget yaml read path = .ok t ↔ Base yaml read (some path) t := by
  constructor
  · intro h
    unfold readTarget at h
    split at h
    · cases h
    · cases h
    · rename_i contents hread
      split at h
      · cases h
      · rename_i text htext
        rw [mapError_eq_ok_iff, ofYaml_eq_ok_iff] at h
        exact .file hread htext h.1 h.2
  · intro h
    cases h with
    | file hread htext hparse husable =>
      rw [readTarget, hread]
      simp only [htext]
      rw [mapError_eq_ok_iff, ofYaml_eq_ok_iff]
      exact ⟨hparse, husable⟩

theorem overrideField_eq_ok_iff {parameter : Parameter} {field : Target.Field}
    {given : Option String} :
    overrideField parameter field given t = .ok t' ↔
      ∃ v, Option.Rel Denotes given v ∧ t' = t.replace field v := by
  cases given with
  | none =>
    constructor
    · intro h
      cases h
      exact ⟨none, .none, rfl⟩
    · rintro ⟨v, hv, rfl⟩
      cases hv
      rfl
  | some text =>
    rw [overrideField]
    constructor
    · intro h
      split at h
      · rename_i n hn
        cases h
        exact ⟨some n, .some (Numeral.uint64?_eq_some_iff.mp hn), rfl⟩
      · cases h
    · rintro ⟨v, hv, rfl⟩
      cases hv with
      | some hn =>
        rw [Numeral.uint64?_eq_some_iff.mpr hn]
        rfl

/-- The target that the command line begins with. -/
theorem base_eq_ok_iff {file : Option String} :
    file.elim (.ok .default) (readTarget yaml read) = .ok t ↔ Base yaml read file t := by
  cases file with
  | some path => exact readTarget_eq_ok_iff
  | none =>
    constructor
    · intro h
      cases h
      exact .default
    · intro h
      cases h
      rfl

/-- What the command line makes of a target. -/
def TargetOptions.complete (o : TargetOptions) (t : Target) : Except SelectionError Target := do
  let t ← overrideField .registers .registers o.registers t
  let t ← overrideField .memorySize .memorySize o.memorySize t
  let t ← overrideField .maxIterations .maxIterations o.maxIterations t
  t.validate.mapError .target

theorem TargetOptions.select_eq (o : TargetOptions) (yaml : Target.Format)
    (read : String → Except FileError ByteArray) :
    o.select yaml read = o.file.elim (.ok .default) (readTarget yaml read) >>= o.complete := by
  rw [select]
  cases o.file with
  | some path => rfl
  | none => rfl

theorem complete_eq_ok_iff {o : TargetOptions} :
    o.complete t = .ok c ↔
      ∃ registers memorySize maxIterations, Option.Rel Denotes o.registers registers ∧
        Option.Rel Denotes o.memorySize memorySize ∧
        Option.Rel Denotes o.maxIterations maxIterations ∧
        c = t.merge registers memorySize maxIterations ∧ c.Usable := by
  simp only [TargetOptions.complete, bind_eq_ok_iff, overrideField_eq_ok_iff, mapError_eq_ok_iff,
    Target.validate_eq_ok_iff]
  constructor
  · rintro ⟨-, ⟨r, hr, rfl⟩, -, ⟨m, hm, rfl⟩, -, ⟨i, hi, rfl⟩, rfl, husable⟩
    exact ⟨r, m, i, hr, hm, hi, Target.replace_replace_replace t r m i, husable⟩
  · rintro ⟨r, m, i, hr, hm, hi, rfl, husable⟩
    rw [← Target.replace_replace_replace] at husable ⊢
    exact ⟨_, ⟨r, hr, rfl⟩, _, ⟨m, hm, rfl⟩, _, ⟨i, hi, rfl⟩, rfl, husable⟩

/-- **Which settings select a target, and which.** -/
theorem select_eq_ok_iff {o : TargetOptions} :
    o.select yaml read = .ok c ↔
      ∃ base registers memorySize maxIterations, Base yaml read o.file base ∧
        Option.Rel Denotes o.registers registers ∧ Option.Rel Denotes o.memorySize memorySize ∧
        Option.Rel Denotes o.maxIterations maxIterations ∧
        c = base.merge registers memorySize maxIterations ∧ c.Usable := by
  rw [TargetOptions.select_eq, bind_eq_ok_iff]
  simp only [base_eq_ok_iff, complete_eq_ok_iff, exists_and_left]

/-- **Every program can be lowered onto a target that was selected.** -/
theorem exists_lower_of_select {o : TargetOptions} (h : o.select yaml read = .ok c)
    (source : List SourceInstruction) :
    ∃ lowered, Lowering.lower source c.registers.toNat = .ok lowered := by
  obtain ⟨-, -, -, -, -, -, -, -, -, husable⟩ := select_eq_ok_iff.mp h
  exact ⟨_, Lowering.lower_eq ⟨husable.two_le_registers, husable.registers_le⟩ source⟩

end

/-! ### The two programs -/

/-- Acts that leave the files and what is printed as they are. -/
def Action.isQuiet : Action → Bool
  | .log _ | .report _ => true
  | .print _ | .save _ _ => false

/-- The acts of the script are quiet. -/
def Script.Quiet (script : Script) : Prop := ∀ a ∈ script.actions, a.isQuiet = true

theorem isQuiet_of_mem_logs {events : List Event} {a : Action} (h : a ∈ events.map .log) :
    a.isQuiet = true := by
  obtain ⟨event, -, rfl⟩ := List.mem_map.mp h
  rfl

theorem quiet_fail (lines : List String) (exit : ExitCode) : (Script.fail lines exit).Quiet := by
  intro a ha
  obtain ⟨line, -, rfl⟩ := List.mem_map.mp ha
  rfl

theorem Script.Quiet.after {script : Script} (h : script.Quiet) {actions : List Action}
    (hactions : ∀ a ∈ actions, a.isQuiet = true) : (Script.after actions script).Quiet := by
  intro a ha
  rcases List.mem_append.mp ha with ha | ha
  · exact hactions a ha
  · exact h a ha

/-- Verification reports, and it exits in one of three ways. -/
theorem verification_cases (source : List SourceInstruction) (lowered : Lowering.Lowered)
    (t : Target) :
    (verification source lowered t).Quiet ∧
      ((verification source lowered t).exit = .success ∨
        (verification source lowered t).exit = .executionFault ∨
        (verification source lowered t).exit = .verifyMismatch) := by
  unfold verification
  split
  · exact ⟨quiet_fail _ _, .inr (.inl rfl)⟩
  · split
    · exact ⟨quiet_fail _ _, .inr (.inr rfl)⟩
    · have hunknown : ∀ lines : List String, ∀ a ∈ lines.map Action.report, a.isQuiet = true :=
        fun lines => quiet_fail lines .success
      split
      · exact ⟨(quiet_fail _ _).after (hunknown _), .inl rfl⟩
      · exact ⟨(quiet_fail _ _).after (hunknown _), .inr (.inr rfl)⟩

/-- What the assembler may come to. -/
inductive Course (yaml : Target.Format) (pretty : Listing.Json → String) (o : AssemblerOptions)
    (read : String → Except FileError ByteArray) (script : Script) : Prop
  /-- There is no target. -/
  | noTarget {e : SelectionError} : o.target.select yaml read = .error e → script.Quiet →
      script.exit = .configError → Course yaml pretty o read script
  /-- There is no source. -/
  | noSource {t : Target} {e : SourceFileError} : o.target.select yaml read = .ok t →
      readSource read o.input = .error e → script.Quiet → script.exit = .readerError →
      Course yaml pretty o read script
  /-- The lowered program is written out, with quiet acts before and after. -/
  | output {t : Target} {source : List SourceInstruction} {lowered : Lowering.Lowered}
      {before after : List Action} : o.target.select yaml read = .ok t →
      readSource read o.input = .ok source →
      Lowering.lower source t.registers.toNat = .ok lowered →
      script.actions = before ++ outputActions pretty o lowered ++ after →
      (∀ a ∈ before, a.isQuiet = true) → (∀ a ∈ after, a.isQuiet = true) →
      script.exit = .success ∨ script.exit = .executionFault ∨ script.exit = .verifyMismatch →
      Course yaml pretty o read script

/-- **What the assembler does, case by case.**  Lowering does not fail. -/
theorem course_assembler (yaml : Target.Format) (pretty : Listing.Json → String)
    (o : AssemblerOptions) (read : String → Except FileError ByteArray) :
    Course yaml pretty o read (assembler yaml pretty o read) := by
  unfold assembler
  cases ht : o.target.select yaml read with
  | error e => exact .noTarget ht (quiet_fail _ _) rfl
  | ok t =>
    cases hsource : readSource read o.input with
    | error e =>
      exact .noSource ht hsource ((quiet_fail _ _).after fun a => isQuiet_of_mem_logs) rfl
    | ok source =>
      obtain ⟨lowered, hlower⟩ := exists_lower_of_select ht source
      -- whatever follows the output is quiet
      have houtput : ∀ (events events' : List Event) (rest : Script), rest.Quiet →
          rest.exit = .success ∨ rest.exit = .executionFault ∨ rest.exit = .verifyMismatch →
          Course yaml pretty o read (.after (events.map .log) (.after (events'.map .log)
            (.after (outputActions pretty o lowered) rest))) := by
        intro events events' rest hquiet hexit
        have hactions : (Script.after (events.map .log) (.after (events'.map .log)
            (.after (outputActions pretty o lowered) rest))).actions =
              (events ++ events').map .log ++ outputActions pretty o lowered ++ rest.actions := by
          simp [Script.after]
        exact .output ht hsource hlower hactions (fun a => isQuiet_of_mem_logs) hquiet hexit
      simp only [hlower]
      split
      · obtain ⟨hquiet, hexit⟩ := verification_cases source lowered t
        exact houtput _ _ _ (hquiet.after fun a => isQuiet_of_mem_logs) hexit
      · exact houtput _ _ ⟨[], .success⟩ (List.forall_mem_nil _) (.inl rfl)

theorem exit_assembler_ne_loweringError (yaml : Target.Format) (pretty : Listing.Json → String)
    (o : AssemblerOptions) (read : String → Except FileError ByteArray) :
    (assembler yaml pretty o read).exit ≠ .loweringError := by
  cases course_assembler yaml pretty o read with
  | noTarget _ _ hexit => simp [hexit]
  | noSource _ _ _ hexit => simp [hexit]
  | output _ _ _ _ _ _ hexit => rcases hexit with hexit | hexit | hexit <;> simp [hexit]

theorem exit_showRun_ne_loweringError (o : RunnerOptions) (program : List SourceInstruction)
    (flavor : Flavor) (t : Target) : (showRun o program flavor t).exit ≠ .loweringError := by
  unfold showRun
  cases execute program flavor t with
  | ok e => simp [Script.after]
  | error fault => simp [Script.after, Script.fail]

theorem exit_runner_ne_loweringError (yaml : Target.Format) (o : RunnerOptions)
    (read : String → Except FileError ByteArray) :
    (runner yaml o read).exit ≠ .loweringError := by
  unfold runner
  cases ht : o.target.select yaml read with
  | error e => simp [Script.fail]
  | ok t =>
    cases readSource read o.input with
    | error e => simp [Script.after, Script.fail]
    | ok source =>
      obtain ⟨lowered, hlower⟩ := exists_lower_of_select ht source
      simp only [hlower]
      split
      · exact exit_showRun_ne_loweringError o _ .register t
      · exact exit_showRun_ne_loweringError o source .memory t

/-- A script that does not exit for failed lowering does not do so when it is carried out. -/
theorem exit_perform_ne_loweringError {script : Script} (h : script.exit ≠ .loweringError)
    (d : Directory) : (script.perform d).exit ≠ .loweringError := by
  rcases exit_performActions script.exit script.actions "" "" d with hexit | hexit
  · rw [Script.perform, hexit]
    exact h
  · rw [Script.perform, hexit]
    decide

/-- **Selecting a target is an exact merge, and makes sure that lowering succeeds.**  The settings
select a target if and only if the target file, if one is named, can be read and describes a target
that can be used as it is, every field that is given is a decimal numeral of 64 bits, perhaps behind
a plus sign, and the merge of the fields that are given, the file and the defaults can be used.
The target is this merge.  Every program can be lowered onto it, so neither the assembler nor the
runner exits because a program cannot be lowered, whatever the files hold. -/
theorem selection_is_merge :
    (∀ (yaml : Target.Format) (o : TargetOptions) (read : String → Except FileError ByteArray)
      (c : Target), o.select yaml read = .ok c ↔
        ∃ base registers memorySize maxIterations, Base yaml read o.file base ∧
          Option.Rel Denotes o.registers registers ∧ Option.Rel Denotes o.memorySize memorySize ∧
          Option.Rel Denotes o.maxIterations maxIterations ∧
          c = base.merge registers memorySize maxIterations ∧ c.Usable) ∧
    (∀ (yaml : Target.Format) (o : TargetOptions) (read : String → Except FileError ByteArray)
      (c : Target), o.select yaml read = .ok c →
        ∀ source, ∃ lowered, Lowering.lower source c.registers.toNat = .ok lowered) ∧
    (∀ (yaml : Target.Format) (pretty : Listing.Json → String) (o : AssemblerOptions)
      (d : Directory), ((assembler yaml pretty o d.read).perform d).exit ≠ .loweringError) ∧
    ∀ (yaml : Target.Format) (o : RunnerOptions) (d : Directory),
      ((runner yaml o d.read).perform d).exit ≠ .loweringError := by
  refine ⟨fun _ _ _ _ => select_eq_ok_iff, fun _ _ _ _ => exists_lower_of_select, ?_, ?_⟩
  · intro yaml pretty o d
    exact exit_perform_ne_loweringError (exit_assembler_ne_loweringError yaml pretty o d.read) d
  · intro yaml o d
    exact exit_perform_ne_loweringError (exit_runner_ne_loweringError yaml o d.read) d

/-- The first file is merged with fields that have a plus sign, leading zeros and all bits.  The
second one describes a register file that is too small, and that another size is given does not
help. -/
theorem selection_is_merge_three :
    let d : Directory := .ofFiles [("t.yaml", "memory_size: 0x10\n".toUTF8),
      ("small.yaml", "registers: 1\n".toUTF8)]
    let o : TargetOptions := ⟨some "t.yaml", some "+003", none, some "18446744073709551615"⟩
    let o' : TargetOptions := ⟨some "small.yaml", some "8", none, none⟩
    let c : Target := ⟨3, 16, 18446744073709551615⟩
    let source : List SourceInstruction := [⟨.known .not, -1, 0, 0⟩]
    o.select Yaml.format d.read = .ok c ∧
      (∃ lowered, Lowering.lower source c.registers.toNat = .ok lowered) ∧
      ∀ c', o'.select Yaml.format d.read ≠ .ok c' := by
  intro d o o' c source
  obtain ⟨hmerge, hlower, -, -⟩ := selection_is_merge
  have hread : d.read "t.yaml" = .ok "memory_size: 0x10\n".toUTF8 := rfl
  have hparse : Target.parse Yaml.format "memory_size: 0x10\n" = .ok ⟨8, 16, 5000⟩ := by
    decide +kernel
  have hselect : o.select Yaml.format d.read = .ok c := by
    refine (hmerge Yaml.format o d.read c).mpr ⟨⟨8, 16, 5000⟩, some 3, none,
      some 18446744073709551615,
      .file hread (fromUTF8?_toUTF8 _) hparse ⟨by decide, by decide, by decide, by decide⟩,
      .some (Numeral.uint64?_eq_some_iff.mp (by decide +kernel)), .none,
      .some (Numeral.uint64?_eq_some_iff.mp (by decide +kernel)), rfl,
      ⟨by decide, by decide, by decide, by decide⟩⟩
  refine ⟨hselect, hlower Yaml.format o d.read c hselect source, fun c' h => ?_⟩
  have hread' : d.read "small.yaml" = .ok "registers: 1\n".toUTF8 := rfl
  have hparse' : Target.parse Yaml.format "registers: 1\n" = .ok ⟨1, 256, 5000⟩ := by decide +kernel
  obtain ⟨base, -, -, -, hbase, -⟩ := (hmerge Yaml.format o' d.read c').mp h
  cases hbase with
  | file hcontents htext hbase husable =>
    rw [hread'] at hcontents
    cases hcontents
    rw [fromUTF8?_toUTF8] at htext
    cases htext
    rw [hparse'] at hbase
    cases hbase
    exact absurd husable.two_le_registers (by decide)

end CommandLine
end CrossAssembler
