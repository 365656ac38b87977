import CrossAssembler.CommandLine.Assembler
import CrossAssembler.Listing.Pretty
import CrossAssembler.Proofs.Lowering.Emission
import CrossAssembler.Proofs.Lowering.Faithful
import CrossAssembler.Proofs.Machine.Limit
import CrossAssembler.Yaml.Format
import Mathlib.Control.Monad.Basic

/-!
# Verification and the limit

On request the assembler runs the source and the lowered program under the same limit.  A
program that computes and prints does the same before and after lowering, but lowered it
takes more instructions.  So there is one thing that can make verification fail on such a
program: it runs to its end within the limit, and the lowered program does not.

The lowered program has no jumps either, so how many instructions it takes can be read off
its text.

## Main definitions

* `Operation.computes` — operations that compute and print.

## Main results

* `run_of_computes` — what the lowered program comes to under every limit.
* `exit_assembler`, `exit_performActions` — how the assembler exits when it verifies.
* `verification_succeeds_iff_room` — a program that halts passes verification if and only if
  there is room for the lowered program.
* `short_limit_fails_verification` — there need not be.
-/

namespace CrossAssembler

/-- The operations of programs that only compute and print, until they are done or come to
a NOP. -/
def Operation.computes : Operation → Bool
  | .unrecognized _ => false
  | .known op =>
    match op with
    | .binary _ | .not | .cop | .afc | .pri | .nop => true
    | .load | .store | .jmf | .jmp | .push | .pop | .call | .ret => false

/-- Such operations stay in their frame and do not jump. -/
theorem Operation.of_computes {op : Operation} (h : op.computes = true) :
    op.movesFrames = true ∧ (op ≠ .known .push ∧ op ≠ .known .pop) ∧
      ∃ code, op = .known code ∧ code.neverJumps = true := by
  cases op with
  | unrecognized word => cases h
  | known op =>
    cases op with
    | load | store | jmf | jmp | push | pop | call | ret => cases h
    | _ => exact ⟨rfl, ⟨by rintro ⟨⟩, by rintro ⟨⟩⟩, _, rfl, rfl⟩

/-! ### Runs -/

namespace Lowering

section

variable {registers : Nat} {source : List SourceInstruction} {lowered : Lowered}

/-- What is emitted for a program that computes does not jump. -/
theorem neverJumps_of_mem_executable (hN : RegisterFile.Supported registers)
    (hlower : lower source registers = .ok lowered)
    (hsource : ∀ i ∈ source, i.op.computes = true) :
    ∀ j ∈ lowered.program.executable, ∃ op, j.op = .known op ∧ op.neverJumps = true := by
  intro j hj
  rw [lower_eq hN] at hlower
  cases hlower
  rw [Program.executable, instructions_ofSteps] at hj
  obtain ⟨j', hj', rfl⟩ := List.mem_map.mp hj
  refine op_of_mem_steps (P := fun op => ∃ code, op = .known code ∧ code.neverJumps = true)
    ⟨_, rfl, rfl⟩ ⟨_, rfl, rfl⟩ (fun call hcall => ?_) hj'
  exact (Operation.of_computes (hsource call.1 (List.fst_mem_of_mem_zipIdx hcall))).2.2

/-- **A program that computes, and halts under some limit.**  The lowered program takes as
many instructions as it has up to its first NOP, which are at most four times as many as the
program itself takes.  Under a limit that leaves room for them it ends alike; under any other
it is broken off. -/
theorem run_of_computes {target : Target}
    (hN : RegisterFile.Supported target.registers.toNat) (hthree : 3 ≤ target.registers.toNat)
    (hlower : lower source target.registers.toNat = .ok lowered)
    (hsource : ∀ i ∈ source, i.op.computes = true) {limit : Nat} {s : Machine} {halt : Halt}
    (hrun : target.machine.run source.toArray .memory limit = (s, .ok halt)) :
    ∃ m halt', s.Agrees m ∧ m.steps = Machine.lengthToNop lowered.program.executable ∧
      m.steps ≤ 4 * s.steps ∧
      ∀ limit', (m.steps ≤ limit' →
          target.machine.run lowered.program.executable.toArray .register limit' =
            (m, .ok halt')) ∧
        (limit' < m.steps →
          (target.machine.run lowered.program.executable.toArray .register limit').2 =
            .error (.iterationLimit limit')) := by
  -- both runs are compared where the limit is out of the way
  have hrun' := Machine.run_eq_of_steps_le hrun (by rintro ⟨⟩)
    (Nat.le_max_left s.steps (4 * source.length))
  have hsafe : rereadsSafely (.start 0) source = true :=
    rereadsSafely_of_current (.start 0) fun i hi => (Operation.of_computes (hsource i hi)).2.1
  have hlive := reusesLive_of_rereadsSafely hN (settled_start hN).toValid (covers_start 0 _) hsafe
  have hstraight : ∀ i ∈ source, i.op.isStraight = true := fun i hi =>
    Operation.isStraight_of_movesFrames (Operation.of_computes (hsource i hi)).1
  have hjmf : ∀ i ∈ source, i.op ≠ .known .jmf := by
    intro i hi hop
    have hcomputes := hsource i hi
    rw [hop] at hcomputes
    cases hcomputes
  have halike := endAlike_of_reusesLive hN hthree hlower
    (Nat.le_max_right s.steps (4 * source.length)) hstraight hlive
    (Machine.neverBranches_of_forall_ne hjmf _ _ _)
  rcases hend : target.machine.run lowered.program.executable.toArray .register
    (max s.steps (4 * source.length)) with ⟨m, e⟩
  rw [hrun', hend] at halike
  obtain ⟨hagrees, (rfl : e = .ok (halt.at m.ip)), -, -, hsteps⟩ := halike
  have hlength := Machine.steps_of_run_eq_ok (neverJumps_of_mem_executable hN hlower hsource) hend
  refine ⟨m, halt.at m.ip, hagrees, hlength.trans (Nat.zero_add _), hsteps, fun limit' => ⟨?_, ?_⟩⟩
  · exact fun hroom => Machine.run_eq_of_steps_le hend (by rintro ⟨⟩) hroom
  · exact fun hshort => Machine.run_of_lt_steps hend (Nat.zero_le limit') hshort

end

end Lowering

/-! ### Executions -/

/-- A target that can be used has a register file of a supported size. -/
theorem Target.supported_of_validate {t t' : Target} (h : t.validate = .ok t') :
    RegisterFile.Supported t.registers.toNat := by
  by_cases hsupported : RegisterFile.Supported t.registers.toNat
  · exact hsupported
  · rw [validate, if_pos hsupported] at h
    cases h

section

variable {program : List SourceInstruction} {flavor : Flavor} {t : Target}

theorem run_of_execute {x : Execution} (h : execute program flavor t = .ok x) :
    t.machine.run program.toArray flavor t.maxIterations.toNat = (x.machine, .ok x.halt) := by
  rw [execute] at h
  rcases hrun : t.machine.run program.toArray flavor t.maxIterations.toNat with ⟨m, f | halt⟩
  · rw [hrun] at h
    cases h
  · rw [hrun] at h
    cases h
    rfl

theorem execute_of_run {m : Machine} {halt : Halt}
    (h : t.machine.run program.toArray flavor t.maxIterations.toNat = (m, .ok halt)) :
    execute program flavor t = .ok ⟨m, halt⟩ := by
  rw [execute, h]

theorem execute_of_fault {f : Fault}
    (h : (t.machine.run program.toArray flavor t.maxIterations.toNat).2 = .error f) :
    execute program flavor t = .error f := by
  rcases hrun : t.machine.run program.toArray flavor t.maxIterations.toNat with ⟨m, e⟩
  rw [hrun] at h
  cases h
  rw [execute, hrun]

end

/-- Runs that have left the same memory and printed the same differ in nothing. -/
theorem Execution.compare_of_agrees {x y : Execution} (h : x.machine.Agrees y.machine) :
    x.compare y = ⟨[], true⟩ := by
  simp [compare, Machine.differingCells, h.memory, h.output]

namespace CommandLine

open Lowering (Lowered Program)

/-! ### Scripts -/

/-- Acts that are carried out end as they should, unless a file cannot be written. -/
theorem exit_performActions (exit : ExitCode) (actions : List Action) (stdout stderr : String)
    (d : Directory) :
    (performActions exit actions stdout stderr d).exit = exit ∨
      (performActions exit actions stdout stderr d).exit = .ioError := by
  induction actions generalizing stdout stderr d with
  | nil => exact Or.inl rfl
  | cons action rest ih =>
    cases action with
    | log _ | print _ | report _ => exact ih _ _ _
    | save path text =>
      rw [performActions]
      cases d.write path text.toUTF8 with
      | ok d' => exact ih stdout stderr d'
      | error e => exact Or.inr rfl

/-- When it verifies, the assembler exits as verification does. -/
theorem exit_assembler {yaml : Target.Format} {o : AssemblerOptions}
    {read : String → Except FileError ByteArray} {t : Target} {source : List SourceInstruction}
    {lowered : Lowered} (hverify : o.verify = true) (ht : o.target.select yaml read = .ok t)
    (hsource : readSource read o.input = .ok source)
    (hlower : Lowering.lower source t.registers.toNat = .ok lowered)
    (pretty : Listing.Json → String) :
    (assembler yaml pretty o read).exit = (verification source lowered t).exit := by
  simp only [assembler, ht, hsource, hlower, hverify, if_true, Script.after]

section

variable {source : List SourceInstruction} {lowered : Lowered} {t : Target} {x : Execution}

/-- Verification fails if only the lowered program faults. -/
theorem exit_verification_of_fault {f : Fault} (hx : execute source .memory t = .ok x)
    (hy : execute lowered.program.executable .register t = .error f) :
    (verification source lowered t).exit = .verifyMismatch := by
  rw [Program.executable] at hy
  simp only [verification, hx, hy]
  rfl

/-- Verification succeeds if both programs halt and differ in nothing. -/
theorem exit_verification_of_agrees {y : Execution} (hx : execute source .memory t = .ok x)
    (hy : execute lowered.program.executable .register t = .ok y)
    (hagrees : (x.compare y).agrees = true) :
    (verification source lowered t).exit = .success := by
  rw [Program.executable] at hy
  simp only [verification, hx, hy, hagrees, if_true]
  rfl

end

/-- **Verification raises no false alarm if there is room.**  Take a target that can be used
and has at least two usable registers, and a program that computes and prints and halts
within the limit.  Lowered, it takes as many instructions as it has up to its first NOP,
which are at most four times as many as before.  If the limit leaves room for them, then the
lowered program halts, no cell and no output differs, and the assembler does not complain;
if not, then the lowered program is broken off, and verification fails for that. -/
theorem verification_succeeds_iff_room {target : Target} {source : List SourceInstruction}
    {x : Execution} (htarget : target.validate = .ok target)
    (hthree : 3 ≤ target.registers.toNat) (hsource : ∀ i ∈ source, i.op.computes = true)
    (hx : execute source .memory target = .ok x) :
    ∃ lowered, Lowering.lower source target.registers.toNat = .ok lowered ∧
      let code := lowered.program.executable
      Machine.lengthToNop code ≤ 4 * x.machine.steps ∧
      (Machine.lengthToNop code ≤ target.maxIterations.toNat →
        (∃ y, execute code .register target = .ok y ∧
          (x.compare y).cells = [] ∧ (x.compare y).sameOutput = true) ∧
        (verification source lowered target).exit = .success ∧
        ∀ (yaml : Target.Format) (pretty : Listing.Json → String) (o : AssemblerOptions)
          (d : Directory), o.verify = true →
          o.target.select yaml d.read = .ok target → readSource d.read o.input = .ok source →
          ((assembler yaml pretty o d.read).perform d).exit ≠ .verifyMismatch) ∧
      (target.maxIterations.toNat < Machine.lengthToNop code →
        execute code .register target = .error (.iterationLimit target.maxIterations.toNat) ∧
        (verification source lowered target).exit = .verifyMismatch) := by
  have hN := Target.supported_of_validate htarget
  have hlower := Lowering.lower_eq hN source
  obtain ⟨m, halt, hagrees, hlength, hfour, hruns⟩ :=
    Lowering.run_of_computes hN hthree hlower hsource (run_of_execute hx)
  refine ⟨_, hlower, hlength ▸ hfour, fun hroom => ?_, fun hshort => ?_⟩
  · have hy := execute_of_run ((hruns _).1 (hlength ▸ hroom))
    have hcompare : x.compare ⟨m, halt⟩ = ⟨[], true⟩ := Execution.compare_of_agrees hagrees
    have hexit := exit_verification_of_agrees hx hy (by rw [hcompare]; rfl)
    refine ⟨⟨_, hy, ?_, ?_⟩, hexit, fun yaml pretty o d hverify ht hs => ?_⟩
    · rw [hcompare]
    · rw [hcompare]
    · rw [← exit_assembler hverify ht hs hlower pretty] at hexit
      rcases exit_performActions (assembler yaml pretty o d.read).exit
        (assembler yaml pretty o d.read).actions "" "" d with hperform | hperform
      · rw [Script.perform, hperform, hexit]
        decide
      · rw [Script.perform, hperform]
        decide
  · have hy := execute_of_fault ((hruns _).2 (hlength ▸ hshort))
    exact ⟨hy, exit_verification_of_fault hx hy⟩

/-- What is behind the NOP does not count, so there is just room for what is before it. -/
theorem verification_succeeds_iff_room_six :
    let source : List SourceInstruction := [⟨.known .afc, 0, 5, 0⟩,
      ⟨.known (.binary .add), 1, 0, 0⟩, ⟨.known .pri, 1, 0, 0⟩, ⟨.known .nop, 0, 0, 0⟩,
      ⟨.known .afc, 9, 9, 0⟩]
    let target : Target := ⟨3, 2, 6⟩
    let o : AssemblerOptions := {
      input := "a.s", target := ⟨none, some "3", some "2", some "6"⟩, logLevel := none,
      output := some "a.vhd", listing := false, listingJson := none, verify := true }
    let d : Directory := .ofFiles [("a.s", "AFC 0 5\nADD 1 0 0\nPRI 1\nNOP\nAFC 9 9\n".toUTF8)]
    target.validate = .ok target ∧ (∀ i ∈ source, i.op.computes = true) ∧
      ∃ x lowered, execute source .memory target = .ok x ∧
        Lowering.lower source target.registers.toNat = .ok lowered ∧
        (verification source lowered target).exit = .success ∧
        ((assembler Yaml.format Listing.Json.pretty o d.read).perform d).exit ≠
          .verifyMismatch := by
  intro source target o d
  have htarget : target.validate = .ok target := by decide
  have hsource : ∀ i ∈ source, i.op.computes = true := by decide
  obtain ⟨x, hx⟩ : ∃ x, execute source .memory target = .ok x := ⟨_, rfl⟩
  obtain ⟨lowered, hlower, -, hroom, -⟩ :=
    verification_succeeds_iff_room htarget (by decide) hsource hx
  have hlength : (Lowering.lower source target.registers.toNat).map (fun lowered =>
      Machine.lengthToNop lowered.program.executable) = .ok 6 := by decide +kernel
  rw [hlower] at hlength
  obtain ⟨-, hexit, hassembler⟩ := hroom (Nat.le_of_eq (Except.ok.inj hlength))
  exact ⟨htarget, hsource, x, lowered, hx, hlower, hexit,
    hassembler Yaml.format Listing.Json.pretty o d rfl (by decide +kernel) (by decide +kernel)⟩

/-- **A limit that suffices for a program need not suffice for the lowered one.**  The
assignment takes one instruction, and then another one to store what has been assigned. -/
theorem short_limit_fails_verification :
    let source : List SourceInstruction := [⟨.known .afc, 0, 5, 0⟩]
    let target : Target := ⟨3, 256, 1⟩
    let o : AssemblerOptions := {
      input := "a.s", target := ⟨none, some "3", none, some "1"⟩, logLevel := none,
      output := none, listing := false, listingJson := none, verify := true }
    let d : Directory := .ofFiles [("a.s", "AFC 0 5\n".toUTF8)]
    target.validate = .ok target ∧ (∀ i ∈ source, i.op.computes = true) ∧
      o.target.select Yaml.format d.read = .ok target ∧ readSource d.read o.input = .ok source ∧
      (execute source .memory target).map (·.machine.steps) = .ok 1 ∧
      (Lowering.lower source target.registers.toNat).map (fun lowered =>
        execute lowered.program.executable .register target) =
          .ok (.error (.iterationLimit 1)) ∧
      ((assembler Yaml.format Listing.Json.pretty o d.read).perform d).exit = .verifyMismatch :=
  ⟨by decide, by decide, by decide +kernel, by decide +kernel, by decide +kernel,
    by decide +kernel, by decide +kernel⟩

end CommandLine
end CrossAssembler
