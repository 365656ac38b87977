import CrossAssembler.Proofs.Lowering.Simulation

/-!
# Programs that are lowered faithfully

A program executes like the program lowered from it if all that is taken from registers
is there.  As long as the frame does not move, it is: an address keeps naming the same
cell, so whatever the program reads, it rereads safely.

A move of the frame gives every address another cell, but the residency table is keyed on
addresses and is not told.  It goes on to hand out registers as copies of cells that their
addresses no longer name.  So there are programs that move the frame and are not lowered
faithfully.  Those that reread safely are: whether a program does can be told from its source, and
then it never reuses such a copy, whatever the size of the register file.

## Main definitions

* `Operation.movesFrames` — operations that compute, print and move the frame.

## Main results

* `straight_line_executes_alike` — straight-line programs in one frame are lowered
  faithfully.
* `frame_moves_execute_alike` — programs that move the frame and reread safely are, too.
* `stale_copy_after_push` — other programs that move the frame need not be.
-/

namespace CrossAssembler

/-- The operations of programs that only compute, print and move the frame, until they
are done or come to a NOP. -/
def Operation.movesFrames : Operation → Bool
  | .unrecognized _ => false
  | .known op =>
    match op with
    | .binary _ | .not | .cop | .afc | .pri | .nop | .push | .pop => true
    | .load | .store | .jmf | .jmp | .call | .ret => false

theorem Operation.isStraight_of_movesFrames {op : Operation} (h : op.movesFrames = true) :
    op.isStraight = true := by
  cases op with
  | unrecognized word => cases h
  | known op =>
    cases op with
    | load | store | jmf | jmp | call | ret => cases h
    | _ => rfl

/-- A program without conditional jumps takes none. -/
theorem Machine.neverBranches_of_forall_ne {source : List SourceInstruction}
    (h : ∀ i ∈ source, i.op ≠ .known .jmf) (m : Machine) (flavor : Flavor) (limit : Nat) :
    m.NeverBranches source.toArray flavor limit := by
  intro k _
  unfold branches
  split
  · rename_i hi
    rw [List.getElem?_toArray] at hi
    exact absurd rfl (h _ (List.mem_of_getElem? hi))
  · rfl

namespace Lowering

open Residency (Table)

/-! ### In one frame -/

theorem rereadsSafely_of_current {τ : Trail} (h : τ.Current) {source : List SourceInstruction}
    (hsource : ∀ i ∈ source, i.op ≠ .known .push ∧ i.op ≠ .known .pop) :
    rereadsSafely τ source = true := by
  induction source generalizing τ with
  | nil => rfl
  | cons i rest ih =>
    obtain ⟨hpush, hpop⟩ := hsource i List.mem_cons_self
    have hrest := ih (h.after hpush hpop) fun j hj => hsource j (List.mem_cons_of_mem i hj)
    rw [rereadsSafely, h.permits i, hrest, Bool.or_true]
    rfl

/-- **Straight-line programs in one frame are lowered faithfully.**  On a target with at
least two usable registers and of whatever memory, take a program that assigns,
computes, prints, loads registers and jumps on conditions, and may stop at a NOP.  If no
jump that it executes is taken, and if there is room for four times its instructions,
then it and the program lowered from it halt alike or fault alike. -/
theorem straight_line_executes_alike {target : Target} {source : List SourceInstruction}
    (hthree : 3 ≤ target.registers.toNat) (hmax : target.registers.toNat ≤ RegisterFile.maxSize)
    (hlimit : 4 * source.length ≤ target.maxIterations.toNat)
    (hsource : ∀ i ∈ source,
      i.op.isStraight = true ∧ i.op ≠ .known .push ∧ i.op ≠ .known .pop)
    (hbranch : target.machine.NeverBranches source.toArray .memory target.maxIterations.toNat) :
    ∃ lowered, lower source target.registers.toNat = .ok lowered ∧
      ExecuteAlike lowered.program.originOf? (execute source .memory target)
        (execute lowered.program.executable .register target) := by
  have hN : RegisterFile.Supported target.registers.toNat := ⟨Nat.le_of_succ_le hthree, hmax⟩
  have hsafe : rereadsSafely (.start 0) source = true :=
    rereadsSafely_of_current (.start 0) fun i hi => (hsource i hi).2
  have hlive := reusesLive_of_rereadsSafely hN (settled_start hN).toValid (covers_start 0 _) hsafe
  exact executeAlike_of_reusesLive hthree hmax hlimit (fun i hi => (hsource i hi).1) hlive hbranch

/-- With two usable registers, the division overwrites one of its operands and its result
is stored where the other one was; then it is divided by zero. -/
theorem straight_line_executes_alike_three :
    let source : List SourceInstruction := [⟨.known .afc, 1, 7, 0⟩, ⟨.known .cop, 2, 1, 0⟩,
      ⟨.known .jmf, 2, 9, 0⟩, ⟨.known .load, 0, 2, 0⟩, ⟨.known (.binary .div), 1, 2, 1⟩,
      ⟨.known .not, 2, 0, 0⟩, ⟨.known .pri, 2, 0, 0⟩, ⟨.known (.binary .div), 0, 1, 2⟩,
      ⟨.known .nop, 0, 0, 0⟩]
    let target : Target := ⟨3, 3, 36⟩
    (∀ i ∈ source, i.op.isStraight = true ∧ i.op ≠ .known .push ∧ i.op ≠ .known .pop) ∧
      target.machine.NeverBranches source.toArray .memory target.maxIterations.toNat ∧
      ∃ lowered, lower source target.registers.toNat = .ok lowered ∧
        ExecuteAlike lowered.program.originOf? (execute source .memory target)
          (execute lowered.program.executable .register target) := by
  intro source target
  have hsource : ∀ i ∈ source,
      i.op.isStraight = true ∧ i.op ≠ .known .push ∧ i.op ≠ .known .pop := by decide
  have hbranch : target.machine.NeverBranches source.toArray .memory
      target.maxIterations.toNat := by decide +kernel
  exact ⟨hsource, hbranch, straight_line_executes_alike (by decide) (by decide) (by decide)
    hsource hbranch⟩

/-! ### From frame to frame -/

/-- **Programs that move the frame are lowered faithfully if they reread safely.**  Take a program
that computes, prints and moves the frame, and a target with at least two usable registers and
room for four times its instructions.  Suppose that every address that is read has not been used
before, or still names the cell that it named when it was last used, which has not been assigned
under another address since.  Then the program and the program lowered from it halt alike or fault
alike.

On a register file of a given size, less is enough: that an operand is taken from a register as it
is only while the register is a copy of the cell that the operand names. -/
theorem frame_moves_execute_alike {target : Target} {source : List SourceInstruction}
    (hthree : 3 ≤ target.registers.toNat) (hmax : target.registers.toNat ≤ RegisterFile.maxSize)
    (hlimit : 4 * source.length ≤ target.maxIterations.toNat)
    (hsource : ∀ i ∈ source, i.op.movesFrames = true) :
    (rereadsSafely (.start 0) source = true →
      ∃ lowered, lower source target.registers.toNat = .ok lowered ∧
        ExecuteAlike lowered.program.originOf? (execute source .memory target)
          (execute lowered.program.executable .register target)) ∧
    (reusesLive (.empty target.registers.toNat) (.blank 0) source = true →
      ∃ lowered, lower source target.registers.toNat = .ok lowered ∧
        ExecuteAlike lowered.program.originOf? (execute source .memory target)
          (execute lowered.program.executable .register target)) := by
  have hN : RegisterFile.Supported target.registers.toNat := ⟨Nat.le_of_succ_le hthree, hmax⟩
  have hstraight : ∀ i ∈ source, i.op.isStraight = true := fun i hi =>
    Operation.isStraight_of_movesFrames (hsource i hi)
  have hjmf : ∀ i ∈ source, i.op ≠ .known .jmf := by
    intro i hi hop
    have := hsource i hi
    rw [hop] at this
    cases this
  have hbranch := Machine.neverBranches_of_forall_ne hjmf target.machine .memory
    target.maxIterations.toNat
  refine ⟨fun hsafe => ?_, fun hlive => ?_⟩
  · have hlive :=
      reusesLive_of_rereadsSafely hN (settled_start hN).toValid (covers_start 0 _) hsafe
    exact executeAlike_of_reusesLive hthree hmax hlimit hstraight hlive hbranch
  · exact executeAlike_of_reusesLive hthree hmax hlimit hstraight hlive hbranch

/-- A frame is entered and left again.  After that, the address 2 names the cell that it named
before, and the address 0 is assigned before it is read.  The second program reads the address 0 in
another frame than it was assigned in, but by then other addresses have taken both usable
registers, so it is loaded. -/
theorem frame_moves_execute_alike_three :
    let source : List SourceInstruction := [⟨.known .afc, 2, 5, 0⟩, ⟨.known .push, 4, 0, 0⟩,
      ⟨.known .afc, 0, 8, 0⟩, ⟨.known .pop, 4, 0, 0⟩, ⟨.known .cop, 1, 2, 0⟩,
      ⟨.known .afc, 0, 3, 0⟩, ⟨.known (.binary .sou), 0, 1, 0⟩, ⟨.known .pri, 0, 0, 0⟩]
    let evicting : List SourceInstruction := [⟨.known .afc, 0, 5, 0⟩, ⟨.known .push, 1, 0, 0⟩,
      ⟨.known .afc, 1, 1, 0⟩, ⟨.known .afc, 2, 2, 0⟩, ⟨.known .cop, 3, 0, 0⟩]
    let target : Target := ⟨3, 6, 32⟩
    ((∀ i ∈ source, i.op.movesFrames = true) ∧ rereadsSafely (.start 0) source = true ∧
      ∃ lowered, lower source target.registers.toNat = .ok lowered ∧
        ExecuteAlike lowered.program.originOf? (execute source .memory target)
          (execute lowered.program.executable .register target)) ∧
    (∀ i ∈ evicting, i.op.movesFrames = true) ∧ rereadsSafely (.start 0) evicting = false ∧
      reusesLive (.empty target.registers.toNat) (.blank 0) evicting = true ∧
      ∃ lowered, lower evicting target.registers.toNat = .ok lowered ∧
        ExecuteAlike lowered.program.originOf? (execute evicting .memory target)
          (execute lowered.program.executable .register target) := by
  intro source evicting target
  have hsource : ∀ i ∈ source, i.op.movesFrames = true := by decide
  have hsafe : rereadsSafely (.start 0) source = true := by decide +kernel
  have hevicting : ∀ i ∈ evicting, i.op.movesFrames = true := by decide
  have hlive : reusesLive (.empty target.registers.toNat) (.blank 0) evicting = true := by
    decide +kernel
  obtain ⟨halike, -⟩ := @frame_moves_execute_alike target source (by decide) (by decide)
    (by decide) hsource
  obtain ⟨-, halike'⟩ := @frame_moves_execute_alike target evicting (by decide) (by decide)
    (by decide) hevicting
  exact ⟨⟨hsource, hsafe, halike hsafe⟩, hevicting, by decide +kernel, hlive, halike' hlive⟩

/-- **A frame move leaves stale copies behind.**  The copy is made from the address 0 after
the frame has moved by one.  The program itself copies the zero that is there; the lowered
one stores the register that still caches the address 0 from before. -/
theorem stale_copy_after_push :
    let source : List SourceInstruction := [⟨.known .afc, 0, 5, 0⟩, ⟨.known .push, 1, 0, 0⟩,
      ⟨.known .cop, 2, 0, 0⟩]
    let target : Target := ⟨3, 8, 100⟩
    (∀ i ∈ source, i.op.movesFrames = true) ∧
      ∃ lowered, lower source target.registers.toNat = .ok lowered ∧
        (execute source .memory target).toOption.map (·.machine.memory) =
          some #[5, 0, 0, 0, 0, 0, 0, 0] ∧
        (execute lowered.program.executable .register target).toOption.map (·.machine.memory) =
          some #[5, 0, 0, 5, 0, 0, 0, 0] :=
  ⟨by decide, _, rfl, by decide +kernel, by decide +kernel⟩

end Lowering
end CrossAssembler
