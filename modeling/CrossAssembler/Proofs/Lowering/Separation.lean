import CrossAssembler.Proofs.Lowering.Coherence
import Mathlib.Control.Monad.Basic

/-!
# Keeping two operands apart

To compute one value from two, lowering fetches the one operand and then the other.  What has
been fetched counts as just used, so that fetching the second operand takes another register as
long as there is one: what is not in use has been left alone for at least an instruction, or is
empty.

On a register file of two there is none.  One register is reserved, and both operands go through
the other.  The second one overwrites the first, and the computation takes it twice.

## Main definitions

* `computations` — the instructions of some code that compute one value from two.

## Main results

* `computations_lowerBinary` — a binary operation is lowered to one computation, and which
  registers it names.
* `fetch_fetch_ne_iff` — when two operands are fetched into two registers.
* `operands_apart_iff` — in whatever state lowering is, two operands are kept apart exactly on
  register files of at least three.
-/

namespace CrossAssembler
namespace Lowering

open Residency (Table)
open Residency.Table (mem_usable)

variable {registers : Nat} {t : Table}

/-- The instructions of some code that compute one value from two. -/
def computations (code : List LoweredInstruction) : List LoweredInstruction :=
  code.filter fun j => j.op.isBinary

/-- To fetch an operand computes nothing. -/
theorem computations_fetch (t : Table) (address : Int64) :
    computations (fetch t address).2.code = [] := by
  refine List.filter_eq_nil_iff.mpr fun j hj => ?_
  rw [op_of_mem_fetch hj]
  exact Bool.false_ne_true

/-- A binary operation is lowered to one computation.  It takes the operands from where they
have been fetched. -/
theorem computations_lowerBinary (t : Table) (op : Binary) (destination x y : Int64) :
    let rx := (fetch t x).1
    let ry := (fetch (fetch t x).2.table y).1
    ∃ rd, computations (lowerBinary t op destination x y).code =
      [⟨.binary op, .ofNat rd, .ofNat ry, .ofNat rx⟩] := by
  have hx := computations_fetch t x
  have hy := computations_fetch (fetch t x).2.table y
  rw [computations] at hx hy
  refine ⟨(fetch (fetch t x).2.table y).2.table.evict.1, ?_⟩
  rw [lowerBinary_eq, computations, List.filter_append, List.filter_append, hx, hy]
  rfl

/-- All that is fetched on a register file of two goes into the one register that is not
reserved. -/
theorem fetch_eq_one (h : t.size = 2) (address : Int64) : (fetch t address).1 = 1 := by
  have hsize : 1 < t.size := by omega
  obtain ⟨hpos, hlt⟩ := mem_usable.mp (fetch_mem_usable hsize address)
  rw [RegisterFile.reserved] at hpos
  omega

/-- Two operands are fetched into two registers, if and only if there are two to fetch into. -/
theorem fetch_fetch_ne_iff (h : t.Settled registers) (hsize : 1 < t.size) {x y : Int64}
    (hne : x ≠ y) :
    (fetch (fetch t x).2.table y).1 ≠ (fetch t x).1 ↔ 3 ≤ t.size := by
  constructor
  · intro hapart
    refine Nat.lt_of_not_le fun hle => hapart ?_
    have htwo : t.size = 2 := by omega
    rw [fetch_eq_one htwo, fetch_eq_one ((size_fetch t x).trans htwo)]
  · exact fun hthree => fetch_fetch_ne h hthree hne.symm

/-- **When two operands are kept apart.**  On every register file that can be lowered onto, and
whatever has been lowered before, a binary operation on two different cells is lowered to one
computation.  It takes its operands from two different registers if and only if the register
file has at least three. -/
theorem operands_apart_iff (h : RegisterFile.Supported registers)
    (calls : List (SourceInstruction × Nat)) :
    ∃ t, start registers = .ok t ∧
      ∀ s ∈ steps t calls, ∀ op destination x y,
        s.source = ⟨.known (.binary op), destination, x, y⟩ → x ≠ y →
        ∃ j, computations s.code = [j] ∧ j.op = .binary op ∧ (j.b ≠ j.c ↔ 3 ≤ registers) := by
  have hsize := one_lt_size_start h
  refine ⟨Table.empty registers, start_eq h, ?_⟩
  refine forall_mem_steps (settled_start h) hsize (fun t index i ht ht' => ?_) calls
  rintro op destination x y hsource hne
  cases (show i = _ from hsource)
  obtain ⟨rd, hcode⟩ := computations_lowerBinary t op destination x y
  have hblock : lowerInstruction t ⟨.known (.binary op), destination, x, y⟩ =
      lowerBinary t op destination x y := rfl
  rw [← hblock] at hcode
  refine ⟨_, hcode, rfl, ?_⟩
  have hrx : (fetch t x).1 < t.size := fetch_lt_size ht' x
  have hry : (fetch (fetch t x).2.table y).1 < t.size := by
    rw [← size_fetch t x]
    exact fetch_lt_size (by rwa [size_fetch]) y
  have hiff := fetch_fetch_ne_iff ht ht' hne
  rw [ht.size_eq] at hiff
  constructor
  · exact fun hapart => hiff.mp fun heq => hapart (congrArg Int64.ofNat heq)
  · exact fun hthree => ofNat_ne h ht.toValid hrx hry (hiff.mpr hthree)

/-- Three registers: both operands of the difference have to be fetched, and neither of the two
that may be used is empty. -/
theorem operands_apart_iff_three :
    RegisterFile.Supported 3 ∧ ∃ t, start 3 = .ok t ∧
      let i : SourceInstruction := ⟨.known (.binary .sou), 4, 0, 1⟩
      let calls := [(⟨.known .afc, 2, 7, 0⟩, 0), (⟨.known .afc, 3, 8, 0⟩, 1), (i, 2)]
      ∃ s ∈ steps t calls, s.source = i ∧ (0 : Int64) ≠ 1 ∧
        ∃ j, computations s.code = [j] ∧ j.op = .binary .sou ∧ j.b ≠ j.c := by
  have h : RegisterFile.Supported 3 := by decide
  refine ⟨h, .empty 3, start_eq h, ?_⟩
  intro i calls
  obtain ⟨t, ht, hsteps⟩ := operands_apart_iff h calls
  cases (start_eq h).symm.trans ht
  have hlowered : i ∈ (steps (.empty 3) calls).map Step.source := by decide +kernel
  obtain ⟨s, hs, hsource⟩ := List.mem_map.mp hlowered
  obtain ⟨j, hcode, hop, hapart⟩ := hsteps s hs .sou 4 0 1 hsource (by decide)
  exact ⟨s, hs, hsource, by decide, j, hcode, hop, hapart.mpr (Nat.le_refl 3)⟩

/-- **One register cannot hold two operands.**  Lowered onto two registers, the sum of two cells
is computed from register 1 and register 1, which by then holds the second cell.  The program
prints 5 + 3, and lowered it prints 3 + 3. -/
theorem two_registers_mix_operands :
    let source : List SourceInstruction := [⟨.known .afc, 0, 5, 0⟩, ⟨.known .afc, 1, 3, 0⟩,
      ⟨.known (.binary .add), 2, 0, 1⟩, ⟨.known .pri, 2, 0, 0⟩]
    let target : Target := ⟨2, 8, 100⟩
    RegisterFile.Supported 2 ∧ (0 : Int64) ≠ 1 ∧
      (lower source 2).map (fun lowered => computations lowered.program.instructions) =
        .ok [⟨.binary .add, 1, 1, 1⟩] ∧
      (execute source .memory target).map (·.machine.output) = .ok #[8] ∧
      (lower source 2).map (fun lowered =>
        (execute lowered.program.executable .register target).map (·.machine.output)) =
          .ok (.ok #[6]) :=
  ⟨by decide, by decide, by decide +kernel, by decide +kernel, by decide +kernel⟩

end Lowering
end CrossAssembler
