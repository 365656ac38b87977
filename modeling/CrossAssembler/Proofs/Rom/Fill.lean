import CrossAssembler.Proofs.Machine.Truncation
import CrossAssembler.Proofs.Rom.Packing

/-!
# What stands behind a program

The words of the ROM behind a program are zero, and a zero word spells a NOP.  A machine that runs
the ROM therefore runs a longer program than the one that was lowered.  As long as a run stays in
the lowered program, it cannot tell the two apart.  If it leaves the program, it goes on from where
it has left it: beyond the fill there is nothing for it to execute, and in the fill there is one
more instruction, which halts it.

Nothing is said about how a run leaves the program.  It may come to the end, but it may as well
jump, call or return to any address.

## Main definitions

* `Extends` — a program goes on where another one ends.
* `fill` — the instruction that a zero word spells.
* `EndsInFill` — a run has left its program for the fill.

## Main results

* `run_of_extends` — a run of the longer program is a run of the shorter one, which goes on if it
  has left it.
* `fill_is_harmless` — a run of a program with fill behind it.
-/

namespace CrossAssembler
namespace Machine

/-! ### Longer programs -/

/-- The second program has the instructions of the first one at the same addresses. -/
def Extends (program longer : Array SourceInstruction) : Prop :=
  ∀ (ip : Nat) (i : SourceInstruction), program[ip]? = some i → longer[ip]? = some i

variable {program longer : Array SourceInstruction} {flavor : Flavor} {limit : Nat}

/-- **Running a longer program.**  If the run of the shorter one is ended by an instruction or by
the limit, it is the run of the longer one.  Otherwise it has left the shorter program, and
the run of the longer one goes on from there. -/
theorem run_of_extends (hextends : Extends program longer) (m : Machine) :
    (m.run program flavor limit).2 ≠ .ok .finished ∧
        m.run longer flavor limit = m.run program flavor limit ∨
      (m.run program flavor limit).2 = .ok .finished ∧
        program[(m.run program flavor limit).1.ip]? = none ∧
        m.run longer flavor limit = (m.run program flavor limit).1.run longer flavor limit := by
  induction m using run_induction program flavor limit with
  | done m hi =>
    rw [run_of_getElem?_eq_none flavor limit hi]
    exact Or.inr ⟨rfl, hi, rfl⟩
  | brokenOff m i hi hle =>
    rw [run_of_limit_le flavor hi hle, run_of_limit_le flavor (hextends _ _ hi) hle]
    exact Or.inl ⟨by simp, rfl⟩
  | stop m i m' e hi hlt hstep =>
    rw [run_of_lt_limit flavor hi hlt, run_of_lt_limit flavor (hextends _ _ hi) hlt, hstep]
    refine Or.inl ⟨?_, rfl⟩
    -- an instruction that ends a run is named by the outcome, and leaving the program names none
    rintro rfl
    cases names_of_step hstep
  | next m i m' hi hlt hstep ih =>
    rw [run_of_lt_limit flavor hi hlt, run_of_lt_limit flavor (hextends _ _ hi) hlt, hstep]
    exact ih

end Machine

namespace Rom

/-! ### Zero words -/

/-- The instruction that a zero word spells. -/
def fill : LoweredInstruction := ⟨.nop, 0, 0, 0⟩

/-- The code as a machine executes it. -/
def program (code : List LoweredInstruction) : Array SourceInstruction :=
  (code.map LoweredInstruction.toSource).toArray

theorem word_fill : word fill = 0 := by decide

theorem decodeWord?_zero : decodeWord? 0 = some fill := by decide

/-- The words of a program with fill behind it. -/
theorem words_fill (code : List LoweredInstruction) (k : Nat) :
    (Image.ofCode (code ++ List.replicate k fill)).words =
      (Image.ofCode code).words ++ List.replicate k 0 := by
  simp [Image.ofCode, word_fill]

theorem getElem?_program (code : List LoweredInstruction) (ip : Nat) :
    (program code)[ip]? = code[ip]?.map LoweredInstruction.toSource := by
  simp [program]

theorem extends_fill (code : List LoweredInstruction) (k : Nat) :
    Machine.Extends (program code) (program (code ++ List.replicate k fill)) := by
  intro ip i hi
  rw [getElem?_program, Option.map_eq_some_iff] at hi
  obtain ⟨j, hj, rfl⟩ := hi
  have hlt := (List.getElem?_eq_some_iff.mp hj).1
  rw [getElem?_program, List.getElem?_append_left hlt, hj]
  rfl

/-- What a machine finds behind a program. -/
theorem getElem?_program_fill {code : List LoweredInstruction} {ip : Nat}
    (h : code.length ≤ ip) (k : Nat) :
    (program (code ++ List.replicate k fill))[ip]? =
      if ip < code.length + k then some fill.toSource else none := by
  rw [getElem?_program, List.getElem?_append_right h, List.getElem?_replicate]
  by_cases hip : ip < code.length + k
  · rw [if_pos hip, if_pos (by omega)]
    rfl
  · rw [if_neg hip, if_neg (by omega)]
    rfl

/-! ### Runs -/

theorem step_fill (m : Machine) (flavor : Flavor) :
    m.step flavor fill.toSource = (m.counted, some (.ok (.nop m.ip))) := rfl

/-- The run of some code has left it for one of the `k` words behind it. -/
def EndsInFill (code : List LoweredInstruction) (k : Nat) (r : Machine × Except Fault Halt) :
    Prop :=
  r.2 = .ok .finished ∧ code.length ≤ r.1.ip ∧ r.1.ip < code.length + k

section

variable {code : List LoweredInstruction} {flavor : Flavor} {limit : Nat}

/-- Where a run has left the code, the address is behind the code. -/
theorem length_le_of_getElem?_program {ip : Nat} (h : (program code)[ip]? = none) :
    code.length ≤ ip := by
  rw [getElem?_program] at h
  simpa using h

theorem run_fill_of_not_endsInFill {start : Machine} {k : Nat}
    (h : ¬ EndsInFill code k (start.run (program code) flavor limit)) :
    start.run (program (code ++ List.replicate k fill)) flavor limit =
      start.run (program code) flavor limit := by
  rcases Machine.run_of_extends (extends_fill code k) start with
    ⟨-, heq⟩ | ⟨hfinished, hnone, hgoesOn⟩
  · exact heq
  · -- the run has left the code and the fill as well
    have hle := length_le_of_getElem?_program hnone
    have hbeyond : ¬ (start.run (program code) flavor limit).1.ip < code.length + k :=
      fun hlt => h ⟨hfinished, hle, hlt⟩
    have hnothing := getElem?_program_fill hle k
    rw [if_neg hbeyond] at hnothing
    rw [hgoesOn, Machine.run_of_getElem?_eq_none flavor limit hnothing, ← hfinished]

/-- A run that has left the code for the fill finds a NOP there. -/
theorem run_fill_of_endsInFill {start : Machine} {k : Nat}
    (h : EndsInFill code k (start.run (program code) flavor limit)) :
    let m := (start.run (program code) flavor limit).1
    start.run (program (code ++ List.replicate k fill)) flavor limit =
      if m.steps < limit then (m.counted, .ok (.nop m.ip))
      else (m, .error (.iterationLimit limit)) := by
  intro m
  obtain ⟨hfinished, hle, hlt⟩ := h
  have hfill := getElem?_program_fill hle k
  rw [if_pos hlt] at hfill
  rcases Machine.run_of_extends (extends_fill code k) start with
    ⟨hne, -⟩ | ⟨-, -, hgoesOn⟩
  · exact absurd hfinished hne
  · rw [hgoesOn]
    by_cases hroom : m.steps < limit
    · rw [Machine.run_of_lt_limit flavor hfill hroom, step_fill, if_pos hroom]
    · rw [Machine.run_of_limit_le flavor hfill (Nat.not_lt.mp hroom), if_neg hroom]

end

/-- **The fill of the ROM is harmless.**  The words behind a program are zero, and each of them
spells a NOP.  Running the program with this fill behind it gives the same result and leaves the
same machine as running the program alone, unless the run leaves the program for an address in the
fill.  In that case it halts at the NOP there if the limit leaves room for one more step, which is
all that has changed, and is broken off otherwise. -/
theorem fill_is_harmless (code : List LoweredInstruction) (k : Nat) (flavor : Flavor)
    (start : Machine) (limit : Nat) :
    let filled := code ++ List.replicate k fill
    let r := start.run (program code) flavor limit
    ((Image.ofCode filled).words = (Image.ofCode code).words ++ List.replicate k 0 ∧
      decodeWord? 0 = some fill) ∧
    (¬ EndsInFill code k r → start.run (program filled) flavor limit = r) ∧
    (EndsInFill code k r → r.1.steps < limit →
      start.run (program filled) flavor limit =
        ({ r.1 with steps := r.1.steps + 1 }, .ok (.nop r.1.ip))) ∧
    (EndsInFill code k r → limit ≤ r.1.steps →
      start.run (program filled) flavor limit = (r.1, .error (.iterationLimit limit))) := by
  intro filled r
  refine ⟨⟨words_fill code k, decodeWord?_zero⟩, run_fill_of_not_endsInFill,
    fun hends hroom => ?_, fun hends hlimit => ?_⟩
  · rw [run_fill_of_endsInFill hends, if_pos hroom]
    rfl
  · rw [run_fill_of_endsInFill hends, if_neg (Nat.not_lt.mpr hlimit)]

/-- A jump to address 2.  With two words of fill behind it the run halts there, or is broken off if
it may not execute another instruction; with one word of fill it finds nothing, as without. -/
theorem fill_is_harmless_jump :
    let code : List LoweredInstruction := [⟨.jmp, 2, 0, 0⟩]
    let start := Machine.fresh 1 2
    let m : Machine := ⟨#[0], #[0, 0], 2, 0, #[], 1⟩
    start.run (program code) .register 5 = (m, .ok .finished) ∧
      start.run (program (code ++ List.replicate 2 fill)) .register 5 =
        ({ m with steps := 2 }, .ok (.nop 2)) ∧
      start.run (program (code ++ List.replicate 2 fill)) .register 1 =
        (m, .error (.iterationLimit 1)) ∧
      start.run (program (code ++ List.replicate 1 fill)) .register 5 = (m, .ok .finished) := by
  intro code start m
  have hfive : start.run (program code) .register 5 = (m, .ok .finished) := by decide +kernel
  have hone : start.run (program code) .register 1 = (m, .ok .finished) := by decide +kernel
  have hends : EndsInFill code 2 (m, .ok .finished) := ⟨rfl, by decide, by decide⟩
  have hbeyond : ¬ EndsInFill code 1 (m, .ok .finished) := fun h => absurd h.2.2 (by decide)
  obtain ⟨-, -, hhalts, -⟩ := fill_is_harmless code 2 .register start 5
  obtain ⟨-, -, -, hbroken⟩ := fill_is_harmless code 2 .register start 1
  obtain ⟨-, hsame, -⟩ := fill_is_harmless code 1 .register start 5
  rw [hfive] at hhalts hsame
  rw [hone] at hbroken
  exact ⟨hfive, hhalts hends (by decide), hbroken hends (by decide), hsame hbeyond⟩

end Rom
end CrossAssembler
