import CrossAssembler.Proofs.Machine.Limit
import CrossAssembler.Proofs.Machine.Outcome
import Mathlib.Control.Monad.Basic

/-!
# A limit truncates a run

A limit says where a run is broken off, and nothing else.  The run looks at it before it
executes an instruction, and no instruction looks at it.  So a run that has come to its end
would have come to the same end under every larger limit; and one that was broken off has
left the machine in the midst of the longer run, which goes on from there as if it had never
been interrupted.

What a run under one limit has to do with a run under another is shown along the shorter one,
which the longer one follows step by step.

## Main definitions

* `brokenOff` — the run has reached its limit.

## Main results

* `run_of_not_brokenOff` — a larger limit changes nothing about a run that has come to its end.
* `run_run_of_brokenOff` — a run that was broken off can be continued.
* `limit_only_truncates` — both, and that on a fresh machine the limits under which a run
  comes to its end are those that leave room for its steps.
-/

namespace CrossAssembler
namespace Machine

/-- The run has not come to its end: its limit was reached. -/
def brokenOff : Except Fault Halt → Bool
  | .error (.iterationLimit _) => true
  | .ok _ | .error _ => false

variable {program : Array SourceInstruction} {flavor : Flavor} {limit limit' : Nat}
variable {m m' : Machine} {e : Except Fault Halt}

/-- An instruction that ends a run gives it an end of its own. -/
theorem brokenOff_of_step {i : SourceInstruction} (h : m.step flavor i = (m', some e)) :
    brokenOff e = false := by
  -- an outcome that names an instruction is none of a limit
  have hnames := names_of_step h
  cases e with
  | ok halt => rfl
  | error fault =>
    cases fault with
    | iterationLimit bound => cases hnames
    | memoryOutOfBounds | registerOutOfBounds | divisionByZero | invalidJump => rfl

theorem ne_iterationLimit_of_not_brokenOff (h : brokenOff e = false) (bound : Nat) :
    e ≠ .error (.iterationLimit bound) := by
  rintro rfl
  cases h

/-! ### Two limits, one run -/

/-- **A larger limit changes nothing** about a run that has come to its end. -/
theorem run_of_not_brokenOff (hle : limit ≤ limit')
    (h : brokenOff (m.run program flavor limit).2 = false) :
    m.run program flavor limit' = m.run program flavor limit := by
  induction m using run_induction program flavor limit with
  | done m hi => rw [run_of_getElem?_eq_none flavor limit hi, run_of_getElem?_eq_none flavor _ hi]
  | brokenOff m i hi hlimit =>
    rw [run_of_limit_le flavor hi hlimit] at h
    cases h
  | stop m i m' e hi hlt hstep =>
    have hlt' : m.steps < limit' := by omega
    rw [run_of_lt_limit flavor hi hlt, run_of_lt_limit flavor hi hlt', hstep]
  | next m i m' hi hlt hstep ih =>
    have hlt' : m.steps < limit' := by omega
    rw [run_of_lt_limit flavor hi hlt, hstep] at h ⊢
    rw [run_of_lt_limit flavor hi hlt', hstep]
    exact ih h

/-- **A run that was broken off can be continued**: the machine that it has left comes to
where a single run comes under the larger limit. -/
theorem run_run_of_brokenOff (hle : limit ≤ limit')
    (h : brokenOff (m.run program flavor limit).2 = true) :
    (m.run program flavor limit).1.run program flavor limit' = m.run program flavor limit' := by
  induction m using run_induction program flavor limit with
  | done m hi => rw [run_of_getElem?_eq_none flavor limit hi]
  | brokenOff m i hi hlimit => rw [run_of_limit_le flavor hi hlimit]
  | stop m i m' e hi hlt hstep =>
    rw [run_of_lt_limit flavor hi hlt, hstep] at h
    rw [brokenOff_of_step hstep] at h
    cases h
  | next m i m' hi hlt hstep ih =>
    -- the longer run makes this step, too
    have hlt' : m.steps < limit' := by omega
    rw [run_of_lt_limit flavor hi hlt, hstep] at h ⊢
    rw [run_of_lt_limit flavor hi hlt', hstep]
    exact ih h

/-! ### How large a limit has to be -/

/-- The limits under which a run comes to a given end are those that leave room for the steps
which that end takes.  Under the others it is broken off. -/
theorem run_eq_iff_steps_le {bound : Nat} (h : m.run program flavor bound = (m', e))
    (hend : brokenOff e = false) (hm : m.steps ≤ limit) :
    (m.run program flavor limit = (m', e) ↔ m'.steps ≤ limit) ∧
      (limit < m'.steps →
        (m.run program flavor limit).2 = .error (.iterationLimit limit)) := by
  refine ⟨⟨fun hrun => ?_, fun hroom => ?_⟩, fun hshort => run_of_lt_steps h hm hshort⟩
  · refine Nat.le_of_not_lt fun hshort => ?_
    have hlimit := run_of_lt_steps h hm hshort
    rw [hrun] at hlimit
    exact ne_iterationLimit_of_not_brokenOff hend limit hlimit
  · exact run_eq_of_steps_le h (ne_iterationLimit_of_not_brokenOff hend bound) hroom

/-- **The limit only truncates a run.**  If a run comes to its end, then under every larger
limit it comes to the same end.  If it is broken off, then running the machine that it has
left under a larger limit comes to what one run under that limit comes to.  On a fresh machine
a run that comes to its end under some limit, in `k` steps, does so under exactly the limits
from `k` on, and is broken off under the others. -/
theorem limit_only_truncates (program : Array SourceInstruction) (flavor : Flavor) :
    (∀ (m : Machine) (limit limit' : Nat), limit ≤ limit' →
      (brokenOff (m.run program flavor limit).2 = false →
        m.run program flavor limit' = m.run program flavor limit) ∧
      (brokenOff (m.run program flavor limit).2 = true →
        (m.run program flavor limit).1.run program flavor limit' =
          m.run program flavor limit')) ∧
    ∀ (memorySize registers bound : Nat) (m : Machine) (e : Except Fault Halt),
      (fresh memorySize registers).run program flavor bound = (m, e) → brokenOff e = false →
      ∀ limit,
        ((fresh memorySize registers).run program flavor limit = (m, e) ↔ m.steps ≤ limit) ∧
        (limit < m.steps →
          ((fresh memorySize registers).run program flavor limit).2 =
            .error (.iterationLimit limit)) := by
  refine ⟨fun m limit limit' hle => ⟨run_of_not_brokenOff hle, run_run_of_brokenOff hle⟩, ?_⟩
  intro memorySize registers bound m e hrun hend limit
  exact run_eq_iff_steps_le hrun hend (Nat.zero_le limit)

/-- A program that jumps back once.  It takes six steps: under the limit 6 it just finishes,
and under the limit 4 it is broken off in the midst of its second turn. -/
theorem limit_only_truncates_six :
    let program : Array SourceInstruction := #[⟨.known .afc, 0, 1, 0⟩, ⟨.known .not, 0, 0, 0⟩,
      ⟨.known .jmf, 0, 1, 0⟩, ⟨.known .pri, 0, 0, 0⟩]
    let start := fresh 1 0
    let final : Machine := ⟨#[1], #[], 4, 0, #[1], 6⟩
    start.run program .memory 6 = (final, .ok .finished) ∧
      start.run program .memory 9 = (final, .ok .finished) ∧
      (start.run program .memory 4).2 = .error (.iterationLimit 4) ∧
      (start.run program .memory 4).1.run program .memory 9 = (final, .ok .finished) ∧
      (start.run program .memory 5).2 = .error (.iterationLimit 5) := by
  intro program start final
  have hsix : start.run program .memory 6 = (final, .ok .finished) := by decide +kernel
  have hfour : brokenOff (start.run program .memory 4).2 = true := by decide +kernel
  obtain ⟨hlimits, hfresh⟩ := limit_only_truncates program .memory
  have hnine := (hlimits start 6 9 (by decide)).1 (by rw [hsix]; rfl)
  have hresumed := (hlimits start 4 9 (by decide)).2 hfour
  have hsteps := hfresh 1 0 6 final (.ok .finished) hsix rfl
  exact ⟨hsix, hnine.trans hsix, (hsteps 4).2 (by decide), hresumed.trans (hnine.trans hsix),
    (hsteps 5).2 (by decide)⟩

end Machine
end CrossAssembler
