import CrossAssembler.Proofs.Machine.Sequence

/-!
# Which registers are copies of which cells

Register code moves values about: a load makes a register a copy of a cell, a store
makes a cell a copy of a register, and a computation makes a register a copy of
nothing.  A ledger follows this through the code without running it.  It knows the
frame base, so that it can tell two cells apart that go by the same address in two
frames, and one cell that goes by two addresses.

## Main definitions

* `Ledger` — a frame base, and the registers known to be copies of cells.
* `Ledger.knows` — a register is known to be a copy of the cell at an address.
* `Ledger.after`, `Ledger.afterAll` — the ledger after an instruction, and after
  several.
* `Ledger.Sound` — what the ledger says is true of a machine.

## Main results

* `Ledger.Sound.of_step` — an instruction that proceeds keeps a ledger true.
* `Ledger.Sound.of_follows` — so does code that is executed to its end.
-/

namespace CrossAssembler

/-- What is known of the registers at some point of register code. -/
structure Ledger where
  /-- The frame base. -/
  base : Int64
  /-- Pairs of a register, by its operand, and a cell that it is a copy of. -/
  copies : List (Int64 × Int64)
  deriving DecidableEq, Repr

namespace Ledger

/-- Nothing is known, but for the frame base. -/
def blank (base : Int64) : Ledger := ⟨base, []⟩

/-- The register is known to be a copy of the cell at an address. -/
def knows (l : Ledger) (register address : Int64) : Bool :=
  decide ((register, address + l.base) ∈ l.copies)

/-- A register has been given a value of which nothing is known. -/
def forget (l : Ledger) (register : Int64) : Ledger :=
  { l with copies := l.copies.filter fun p => p.1 ≠ register }

/-- A register has been loaded from an address. -/
def loaded (l : Ledger) (register address : Int64) : Ledger :=
  { l with copies := (register, address + l.base) :: (l.forget register).copies }

/-- A register has been stored to an address. -/
def stored (l : Ledger) (address register : Int64) : Ledger :=
  { l with
    copies := (register, address + l.base) ::
      l.copies.filter fun p => p.2 ≠ address + l.base }

/-- The ledger after an instruction. -/
def after (l : Ledger) (i : LoweredInstruction) : Ledger :=
  match i.op with
  | .load => l.loaded i.a i.b
  | .store => l.stored i.a i.b
  | .binary _ | .not | .afc | .cop => l.forget i.a
  | .push => { l with base := l.base + i.a }
  | .pop => { l with base := l.base - i.a }
  | .nop | .jmp | .jmf | .pri | .call | .ret => l

/-- The ledger after several instructions. -/
def afterAll (l : Ledger) (code : List LoweredInstruction) : Ledger := code.foldl after l

@[simp] theorem afterAll_nil (l : Ledger) : l.afterAll [] = l := rfl

@[simp] theorem afterAll_cons (l : Ledger) (i : LoweredInstruction)
    (code : List LoweredInstruction) : l.afterAll (i :: code) = (l.after i).afterAll code := rfl

@[simp] theorem afterAll_append (l : Ledger) (code rest : List LoweredInstruction) :
    l.afterAll (code ++ rest) = (l.afterAll code).afterAll rest := List.foldl_append

theorem mem_forget {l : Ledger} {register : Int64} {p : Int64 × Int64} :
    p ∈ (l.forget register).copies ↔ p ∈ l.copies ∧ p.1 ≠ register := by
  simp [forget]

theorem mem_loaded {l : Ledger} {register address : Int64} {p : Int64 × Int64} :
    p ∈ (l.loaded register address).copies ↔
      p = (register, address + l.base) ∨ p ∈ l.copies ∧ p.1 ≠ register := by
  rw [loaded, List.mem_cons, mem_forget]

theorem mem_stored {l : Ledger} {address register : Int64} {p : Int64 × Int64} :
    p ∈ (l.stored address register).copies ↔
      p = (register, address + l.base) ∨ p ∈ l.copies ∧ p.2 ≠ address + l.base := by
  simp [stored]

/-! ### Truth of a ledger -/

/-- What the ledger says is true of a machine. -/
structure Sound (l : Ledger) (m : Machine) : Prop where
  /-- The frame base is that of the machine. -/
  base_eq : l.base = m.offset
  /-- The registers it lists are copies of their cells. -/
  holds : ∀ p ∈ l.copies, 0 ≤ p.1.toInt ∧ m.Holds p.1.toInt.toNat p.2

theorem sound_blank (m : Machine) : (blank m.offset).Sound m :=
  ⟨rfl, fun _ hp => by cases hp⟩

section

variable {l : Ledger} {m m' : Machine}

/-- Two operands that name registers name the same one only if they are equal. -/
theorem toNat_ne {r q : Int64} (hr : 0 ≤ r.toInt) (hq : 0 ≤ q.toInt) (h : q ≠ r) :
    q.toInt.toNat ≠ r.toInt.toNat := by
  intro heq
  exact h (Int64.toInt.inj (by omega))

/-- Giving a register any value makes what the ledger says of it doubtful, and
nothing else. -/
theorem Sound.forget (h : l.Sound m) {register : Int64} (hr : 0 ≤ register.toInt) (v : Int64) :
    (l.forget register).Sound (m.setRegister register.toInt.toNat v).advanced where
  base_eq := h.base_eq
  holds := by
    intro p hp
    obtain ⟨hmem, hne⟩ := mem_forget.mp hp
    obtain ⟨hpos, hholds⟩ := h.holds p hmem
    exact ⟨hpos, hholds.setRegister_of_ne (toNat_ne hr hpos hne) v⟩

theorem Sound.loaded (h : l.Sound m) {register address v : Int64} (hr : 0 ≤ register.toInt)
    (hlt : register.toInt.toNat < m.registers.size)
    (hcell : m.cell? (address + m.offset) = some v) :
    (l.loaded register address).Sound (m.setRegister register.toInt.toNat v).advanced where
  base_eq := h.base_eq
  holds := by
    intro p hp
    rcases mem_loaded.mp hp with rfl | hp
    · refine ⟨hr, Machine.holds_advanced.mpr (Machine.holds_setRegister_self hlt ?_)⟩
      rw [h.base_eq]
      exact hcell
    · exact (h.forget hr v).holds p (mem_forget.mpr hp)

theorem Sound.stored (h : l.Sound m) {address register v w : Int64} (hr : 0 ≤ register.toInt)
    (hv : m.registers[register.toInt.toNat]? = some v)
    (hcell : m.cell? (address + m.offset) = some w) :
    (l.stored address register).Sound (m.setCell (address + m.offset) v).advanced where
  base_eq := h.base_eq
  holds := by
    intro p hp
    rcases mem_stored.mp hp with rfl | ⟨hmem, hne⟩
    · rw [h.base_eq]
      exact ⟨hr, Machine.holds_advanced.mpr (Machine.holds_setCell_self hcell hv)⟩
    · -- the copies of the cell that was there before have been struck out
      obtain ⟨hpos, hholds⟩ := h.holds p hmem
      rw [h.base_eq] at hne
      exact ⟨hpos, hholds.setCell_of_ne hne hcell v⟩

/-- **An instruction that goes through keeps a ledger true.** -/
theorem Sound.of_step (h : l.Sound m) {i : LoweredInstruction} (hop : i.op.FallsThrough)
    (hstep : m.step .register i.toSource = (m', none)) : (l.after i).Sound m' := by
  obtain ⟨op, a, b, c⟩ := i
  obtain ⟨hnop, hjmp, hcall, hret⟩ := hop
  cases op with
  | nop => exact absurd rfl hnop
  | jmp => exact absurd rfl hjmp
  | call => exact absurd rfl hcall
  | ret => exact absurd rfl hret
  | load =>
    obtain ⟨v, hcell, hpos, hlt, rfl⟩ := Machine.of_step_load hstep
    exact h.loaded hpos hlt hcell
  | store =>
    obtain ⟨v, w, hpos, hreg, hcell, rfl⟩ := Machine.of_step_store hstep
    exact h.stored hpos hreg hcell
  | binary op =>
    obtain ⟨v, hpos, rfl⟩ := Machine.of_step_compute (Or.inl ⟨op, rfl⟩) hstep
    exact h.forget hpos v
  | not =>
    obtain ⟨v, hpos, rfl⟩ := Machine.of_step_compute (Or.inr (Or.inl rfl)) hstep
    exact h.forget hpos v
  | afc =>
    obtain ⟨v, hpos, rfl⟩ := Machine.of_step_compute (Or.inr (Or.inr (Or.inl rfl))) hstep
    exact h.forget hpos v
  | cop =>
    obtain ⟨v, hpos, rfl⟩ := Machine.of_step_compute (Or.inr (Or.inr (Or.inr rfl))) hstep
    exact h.forget hpos v
  -- cells are listed by where they are in memory, so a move of the frame changes none
  | push =>
    cases hstep
    exact ⟨congrArg (· + a) h.base_eq, h.holds⟩
  | pop =>
    cases hstep
    exact ⟨congrArg (· - a) h.base_eq, h.holds⟩
  | jmf =>
    obtain ⟨ip, rfl⟩ := Machine.of_step_branch hstep
    exact ⟨h.base_eq, h.holds⟩
  | pri =>
    rw [LoweredInstruction.toSource, Machine.step_print] at hstep
    split at hstep
    · cases hstep
    · cases hstep
      exact ⟨h.base_eq, h.holds⟩

/-- **Code that is executed to its end keeps a ledger true.** -/
theorem Sound.of_follows {code : List LoweredInstruction} (h : l.Sound m)
    (hcode : ∀ i ∈ code, i.op.FallsThrough) (hfollows : Machine.Follows code m m' none) :
    (l.afterAll code).Sound m' := by
  induction code generalizing l m with
  | nil =>
    cases hfollows
    exact h
  | cons i code ih =>
    obtain ⟨m₁, hstep, hrest⟩ := hfollows.of_cons
    have hsound := h.of_step (hcode i List.mem_cons_self) hstep
    exact ih hsound (fun j hj => hcode j (List.mem_cons_of_mem i hj)) hrest

end

end Ledger
end CrossAssembler
