import CrossAssembler.Proofs.Lowering.Invariant
import CrossAssembler.Proofs.Machine.Ledger

/-!
# Trails of addresses

The residency table says which register caches which address, and it is drawn up before
anything runs.  It is right about a run as far as the register is then a copy of the
cell that the address names.  An address names a cell relative to the frame base, so
this may cease to be so: when the frame moves, or when the cell is assigned under another
address, in another frame.

How far the table is right can be told from the source alone.  A trail follows, for each
address that a program has used, which cell it named then, and forgets it when the cell
is assigned under another address.  No register file matters for it: it is the ledger of
a machine that has a register for each address.  What a trail knows of an address, the
ledger of the emitted code knows of the register that caches the address, however few
registers there are and whichever of them were evicted.

## Main definitions

* `operands` — the addresses whose values an instruction fetches.
* `Trail` — the addresses that a program has used, and the cells that they named.
* `rereadsSafely` — a program reads no address that has come to name another cell.
* `Covers` — what a trail knows of an address is known of the register that caches it.

## Main results

* `covers_lowerInstruction` — the code emitted for an instruction keeps a trail
  covering.
-/

namespace CrossAssembler
namespace Lowering

open Residency (Table)
open Residency.Table (mem_usable)
open LoweredInstruction (load store)

/-- The addresses whose values an instruction fetches, in order. -/
def operands (i : SourceInstruction) : List Int64 :=
  match i.op with
  | .known (.binary _) => [i.b, i.c]
  | .known .not => [i.a]
  | .known .cop => [i.b]
  | _ => []

/-! ### Trails -/

/-- What is known of the addresses that a program has used. -/
structure Trail where
  /-- The frame base, and pairs of an address and the cell that it named when it was last
  used.  Every address is thought of as a register of its own. -/
  ledger : Ledger
  /-- The addresses that have been read or assigned. -/
  used : List Int64
  deriving DecidableEq, Repr

namespace Trail

/-- The trail of a program that has not begun. -/
def start (base : Int64) : Trail := ⟨.blank base, []⟩

/-- An address is read. -/
def read (τ : Trail) (address : Int64) : Trail :=
  ⟨τ.ledger.loaded address address, address :: τ.used⟩

/-- An address is assigned.  What other addresses named the same cell do so no more. -/
def assign (τ : Trail) (address : Int64) : Trail :=
  ⟨(τ.ledger.forget address).stored address address, address :: τ.used⟩

/-- The frame moves. -/
def rebase (τ : Trail) (base : Int64) : Trail := ⟨⟨base, τ.ledger.copies⟩, τ.used⟩

/-- The address has not been used, or it still names the cell that it named then. -/
def keeps (τ : Trail) (address : Int64) : Bool :=
  decide (address ∉ τ.used) || τ.ledger.knows address address

/-- The addresses that are read one after the other keep their cells. -/
def keepsAll (τ : Trail) : List Int64 → Bool
  | [] => true
  | x :: rest => τ.keeps x && (τ.read x).keepsAll rest

/-- The addresses that an instruction reads keep their cells.  An explicit load takes its
value from memory, but the register that it names may be none that is tracked, and then
another one goes on to cache the address. -/
def permits (τ : Trail) (i : SourceInstruction) : Bool :=
  τ.keepsAll (operands i) && (decide (i.op ≠ .known .load) || τ.keeps i.b)

/-- The trail after an instruction. -/
def after (τ : Trail) (i : SourceInstruction) : Trail :=
  match i.op with
  | .known (.binary _) => ((τ.read i.b).read i.c).assign i.a
  | .known .not => (τ.read i.a).assign i.a
  | .known .cop => (τ.read i.b).assign i.a
  | .known .afc | .known .store => τ.assign i.a
  | .known .load => τ.read i.b
  | .known .jmf => τ.read i.a
  | .known .push => τ.rebase (τ.ledger.base + i.a)
  | .known .pop => τ.rebase (τ.ledger.base - i.a)
  | _ => τ

section

variable {τ : Trail} {address other cell : Int64}

theorem mem_read : (other, cell) ∈ (τ.read address).ledger.copies ↔
    other = address ∧ cell = address + τ.ledger.base ∨
      (other, cell) ∈ τ.ledger.copies ∧ other ≠ address := by
  rw [read, Ledger.mem_loaded, Prod.mk.injEq]

theorem mem_assign : (other, cell) ∈ (τ.assign address).ledger.copies ↔
    other = address ∧ cell = address + τ.ledger.base ∨
      ((other, cell) ∈ τ.ledger.copies ∧ other ≠ address) ∧ cell ≠ address + τ.ledger.base := by
  rw [assign, Ledger.mem_stored, Ledger.mem_forget, Prod.mk.injEq]
  rfl

theorem mem_of_keeps (h : τ.keeps address = true) (hused : address ∈ τ.used) :
    (address, address + τ.ledger.base) ∈ τ.ledger.copies := by
  rcases Bool.or_eq_true_iff.mp h with hunused | hmem
  · exact absurd hused (of_decide_eq_true hunused)
  · exact of_decide_eq_true hmem

end

end Trail

/-- A program reads an address only if it has not used it before, or if the address still
names the cell that it named when it was last used, and that cell has not been assigned
under another address since.  What comes after a NOP does not count. -/
def rereadsSafely (τ : Trail) : List SourceInstruction → Bool
  | [] => true
  | i :: rest =>
    τ.permits i && (decide (i.op = .known .nop) || rereadsSafely (τ.after i) rest)

/-! ### What the three kinds of change ask for -/

/-- The trail covers what the residency table records: it knows the addresses, and if it
knows of a cell that an address named, then the ledger knows that the register which
caches the address is a copy of this cell. -/
structure Covers (τ : Trail) (t : Table) (l : Ledger) : Prop where
  base_eq : τ.ledger.base = l.base
  used : ∀ {r address}, t.resident? r = some address → address ∈ τ.used
  copies : ∀ {r address cell}, t.resident? r = some address →
    (address, cell) ∈ τ.ledger.copies → (Int64.ofNat r, cell) ∈ l.copies

theorem covers_start (base : Int64) (registers : Nat) :
    Covers (.start base) (.empty registers) (.blank base) where
  base_eq := rfl
  used := fun hr => by
    rw [Table.resident?_empty] at hr
    cases hr
  copies := fun hr => by
    rw [Table.resident?_empty] at hr
    cases hr

section

variable {τ : Trail} {t t' : Table} {l : Ledger} (h : Covers τ t l)
include h

theorem Covers.congr (ht' : ∀ q, t'.resident? q = t.resident? q) : Covers τ t' l where
  base_eq := h.base_eq
  used := fun hr => h.used (ht' _ ▸ hr)
  copies := fun hr => h.copies (ht' _ ▸ hr)

theorem Covers.rebase (base : Int64) : Covers (τ.rebase base) t ⟨base, l.copies⟩ where
  base_eq := rfl
  used := h.used
  copies := h.copies

/-- An address may be read from the register that caches it. -/
theorem Covers.read {address : Int64} (hkeeps : τ.keeps address = true) :
    Covers (τ.read address) t l where
  base_eq := h.base_eq
  used := fun hr => List.mem_cons_of_mem address (h.used hr)
  copies := by
    intro r other cell hr hmem
    rcases Trail.mem_read.mp hmem with ⟨rfl, rfl⟩ | ⟨hmem, -⟩
    · -- the address has been used, or no register would cache it
      exact h.copies hr (Trail.mem_of_keeps hkeeps (h.used hr))
    · exact h.copies hr hmem

/-- A register that no longer caches anything may be given any value. -/
theorem Covers.forget {register : Int64}
    (ht' : ∀ q other, t'.resident? q = some other →
      Int64.ofNat q ≠ register ∧ t.resident? q = some other) :
    Covers τ t' (l.forget register) where
  base_eq := h.base_eq
  used := fun hr => h.used (ht' _ _ hr).2
  copies := by
    intro q other cell hq hmem
    obtain ⟨hne, hold⟩ := ht' q other hq
    exact Ledger.mem_forget.mpr ⟨h.copies hold hmem, hne⟩

/-- A register is loaded from an address.  Other registers that cache it may be kept if
the address keeps its cell. -/
theorem Covers.loaded {register address : Int64}
    (ht' : ∀ q other, t'.resident? q = some other →
      Int64.ofNat q = register ∧ other = address ∨
        Int64.ofNat q ≠ register ∧ t.resident? q = some other ∧
          (other = address → τ.keeps address = true)) :
    Covers (τ.read address) t' (l.loaded register address) where
  base_eq := h.base_eq
  used := by
    intro q other hq
    rcases ht' q other hq with ⟨-, rfl⟩ | ⟨-, hold, -⟩
    · exact List.mem_cons_self
    · exact List.mem_cons_of_mem address (h.used hold)
  copies := by
    intro q other cell hq hmem
    rw [Ledger.mem_loaded, ← h.base_eq]
    rcases ht' q other hq with ⟨rfl, rfl⟩ | ⟨hne, hold, hkeeps⟩
    · rcases Trail.mem_read.mp hmem with ⟨-, rfl⟩ | ⟨-, hne⟩
      · exact Or.inl rfl
      · exact absurd rfl hne
    · refine Or.inr ⟨?_, hne⟩
      rcases Trail.mem_read.mp hmem with ⟨rfl, rfl⟩ | ⟨hmem, -⟩
      · exact h.copies hold (Trail.mem_of_keeps (hkeeps rfl) (h.used hold))
      · exact h.copies hold hmem

/-- A register is stored to an address, of which all other copies are given up. -/
theorem Covers.stored {address register : Int64}
    (ht' : ∀ q other, t'.resident? q = some other →
      Int64.ofNat q = register ∧ other = address ∨
        other ≠ address ∧ t.resident? q = some other) :
    Covers (τ.assign address) t' (l.stored address register) where
  base_eq := h.base_eq
  used := by
    intro q other hq
    rcases ht' q other hq with ⟨-, rfl⟩ | ⟨-, hold⟩
    · exact List.mem_cons_self
    · exact List.mem_cons_of_mem address (h.used hold)
  copies := by
    intro q other cell hq hmem
    rw [Ledger.mem_stored, ← h.base_eq]
    rcases ht' q other hq with ⟨rfl, rfl⟩ | ⟨hne, hold⟩
    · rcases Trail.mem_assign.mp hmem with ⟨-, rfl⟩ | ⟨⟨-, hne⟩, -⟩
      · exact Or.inl rfl
      · exact absurd rfl hne
    · rcases Trail.mem_assign.mp hmem with ⟨rfl, -⟩ | ⟨⟨hmem, -⟩, hcell⟩
      · exact absurd rfl hne
      · exact Or.inr ⟨h.copies hold hmem, hcell⟩

end

/-! ### The moves between memory and registers -/

/-- Executed with a ledger, the code of a block leaves a residency table that the trail
covers. -/
def Block.CoveredBy (b : Block) (τ : Trail) (l : Ledger) : Prop :=
  Covers τ b.table (l.afterAll b.code)

theorem Block.CoveredBy.prepend {b : Block} {τ : Trail} {l : Ledger}
    {code : List LoweredInstruction} (h : b.CoveredBy τ (l.afterAll code)) :
    Block.CoveredBy ⟨code ++ b.code, b.table⟩ τ l := by
  rw [Block.CoveredBy, Ledger.afterAll_append]
  exact h

section

variable {registers : Nat} {τ : Trail} {t : Table} {l : Ledger}
variable (hN : RegisterFile.Supported registers) (ht : t.Valid registers)
include hN ht

theorem one_lt_size : 1 < t.size := by
  rw [ht.size_eq]
  exact hN.1

theorem size_le : t.size ≤ RegisterFile.maxSize := by
  rw [ht.size_eq]
  exact hN.2

/-- The registers of a register file are told apart by their operands. -/
theorem ofNat_ne {r q : Nat} (hr : r < t.size) (hq : q < t.size) (hne : q ≠ r) :
    Int64.ofNat q ≠ Int64.ofNat r := by
  have hsize := size_le hN ht
  intro heq
  have := congrArg Int64.toInt heq
  rw [RegisterFile.toInt_ofNat (by omega), RegisterFile.toInt_ofNat (by omega)] at this
  omega

theorem covers_fetch (h : Covers τ t l) {address : Int64} (hkeeps : τ.keeps address = true) :
    (fetch t address).2.CoveredBy (τ.read address) l := by
  cases hl : t.locate address with
  | some r =>
    -- nothing is emitted, and the register already caches the address
    rw [fetch_of_locate_eq_some hl]
    refine (h.read hkeeps).congr fun q => ?_
    by_cases hne : q = r
    · obtain ⟨hmem, hold⟩ := Table.of_locate hl
      rw [hne, Table.resident?_fill_self address hmem, hold]
    · exact Table.resident?_fill_of_ne address hne
  | none =>
    -- a victim is loaded
    rw [fetch_of_locate_eq_none hl]
    have hmem := Table.evict_mem_usable (one_lt_size hN ht)
    have hlt := (mem_usable.mp hmem).2
    refine h.loaded fun q other hq => ?_
    by_cases hne : q = t.evict.1
    · subst hne
      rw [Table.resident?_fill_self address (mem_usable.mpr (by
        rw [Table.size_evict]
        exact mem_usable.mp hmem))] at hq
      cases hq
      exact Or.inl ⟨rfl, rfl⟩
    · rw [Table.resident?_fill_of_ne address hne, Table.resident?_evict_of_ne hne] at hq
      exact Or.inr ⟨ofNat_ne hN ht hlt (Table.lt_size_of_resident? hq) hne, hq, fun _ => hkeeps⟩

/-- The register that a victim gives up may be given any value. -/
theorem covers_evict (h : Covers τ t l) : Covers τ t.evict.2 (l.forget (.ofNat t.evict.1)) := by
  have hsize := one_lt_size hN ht
  have hlt := (mem_usable.mp (Table.evict_mem_usable hsize)).2
  refine h.forget fun q other hq => ?_
  obtain ⟨hne, hold⟩ := Table.of_resident?_evict hsize hq
  exact ⟨ofNat_ne hN ht hlt (Table.lt_size_of_resident? hold) hne, hold⟩

omit hN in
theorem covers_writeBack (h : Covers τ t l) {r : Nat} (hr : r ∈ t.usable)
    (destination : Int64) : (writeBack t r destination).CoveredBy (τ.assign destination) l := by
  refine h.stored fun q other hq => ?_
  by_cases hne : q = r
  · have hfilled := (onlyAt_writeBack ht hr destination q).mpr hne
    rw [hfilled] at hq
    cases hq
    exact Or.inl ⟨congrArg Int64.ofNat hne, rfl⟩
  · rw [writeBack, Table.resident?_fill_of_ne destination hne] at hq
    exact Or.inr (Table.of_resident?_dropAddress ht.resident?_reserved hq)

/-- A tracked register that is loaded becomes a copy of its cell. -/
theorem covers_refill (h : Covers τ t l) {register : Int64} {r : Nat}
    (hr : tracked? t register = some r) (address : Int64) :
    Covers (τ.read address) (refill t register address) (l.loaded register address) := by
  obtain rfl := ofNat_of_tracked? hr
  refine h.loaded fun q other hq => ?_
  by_cases hne : q = r
  · have hfilled := (onlyAt_refill ht hr address q).mpr hne
    rw [hfilled] at hq
    cases hq
    exact Or.inl ⟨congrArg Int64.ofNat hne, rfl⟩
  · rw [refill_of_tracked? hr, record, Table.resident?_fill_of_ne address hne] at hq
    obtain ⟨hother, hold⟩ := Table.of_resident?_dropAddress (ht.clear r).resident?_reserved hq
    rw [Table.resident?_clear, if_neg fun hcleared => hne hcleared.2.1] at hold
    have hlt := (mem_usable.mp (mem_usable_of_tracked? hr)).2
    exact Or.inr ⟨ofNat_ne hN ht hlt (Table.lt_size_of_resident? hold) hne, hold,
      fun heq => absurd heq hother⟩

theorem covers_compute (h : Covers τ t l) {i : Nat → LoweredInstruction} (destination : Int64)
    (hi : ∀ (l : Ledger) r, l.after (i r) = l.forget (.ofNat r)) :
    (compute t i destination).CoveredBy (τ.assign destination) l := by
  have hmem : t.evict.1 ∈ t.evict.2.usable := by
    rw [mem_usable, Table.size_evict, ← mem_usable]
    exact Table.evict_mem_usable (one_lt_size hN ht)
  rw [Block.CoveredBy, compute, Ledger.afterAll_cons, hi]
  exact covers_writeBack ht.evict (covers_evict hN ht h) hmem destination

/-! ### The rules -/

theorem covers_lowerBinary (h : Covers τ t l) (op : Binary) {destination x y : Int64}
    (hkeeps : τ.keepsAll [x, y] = true) :
    (lowerBinary t op destination x y).CoveredBy (((τ.read x).read y).assign destination) l := by
  obtain ⟨hkeepsx, hkeeps⟩ := Bool.and_eq_true_iff.mp hkeeps
  obtain ⟨hkeepsy, -⟩ := Bool.and_eq_true_iff.mp hkeeps
  have hx := covers_fetch hN ht h hkeepsx
  have hy := covers_fetch hN (valid_fetch ht x) hx hkeepsy
  rw [lowerBinary_eq]
  refine Block.CoveredBy.prepend ?_
  rw [Ledger.afterAll_append]
  exact covers_compute hN (valid_fetch (valid_fetch ht x) y) hy destination fun _ _ => rfl

theorem covers_lowerNot (h : Covers τ t l) {cell : Int64} (hkeeps : τ.keeps cell = true) :
    (lowerNot t cell).CoveredBy ((τ.read cell).assign cell) l := by
  rw [lowerNot_eq]
  refine Block.CoveredBy.prepend ?_
  exact covers_compute hN (valid_fetch ht cell) (covers_fetch hN ht h hkeeps) cell fun _ _ => rfl

theorem covers_lowerCopy (h : Covers τ t l) {destination source : Int64}
    (hkeeps : τ.keeps source = true) :
    (lowerCopy t destination source).CoveredBy ((τ.read source).assign destination) l := by
  have hmem : (fetch t source).1 ∈ (fetch t source).2.table.usable := by
    rw [mem_usable, size_fetch, ← mem_usable]
    exact fetch_mem_usable (one_lt_size hN ht) source
  rw [lowerCopy_eq]
  refine Block.CoveredBy.prepend ?_
  exact covers_writeBack (valid_fetch ht source) (covers_fetch hN ht h hkeeps) hmem destination

theorem covers_lowerConstant (h : Covers τ t l) (destination value : Int64) :
    (lowerConstant t destination value).CoveredBy (τ.assign destination) l := by
  rw [lowerConstant_eq]
  exact covers_compute hN ht h destination fun _ _ => rfl

/-- An explicit load of a register that is not tracked overwrites no cached copy, but it
does not make a new one either. -/
theorem covers_lowerLoad (h : Covers τ t l) (register : Int64) {address : Int64}
    (hkeeps : τ.keeps address = true) :
    (lowerLoad t register address).CoveredBy (τ.read address) l := by
  rw [lowerLoad]
  cases hr : tracked? t register with
  | some r => exact covers_refill hN ht h hr address
  | none =>
    rw [refill_of_untracked hr]
    refine h.loaded fun q other hq => Or.inr ⟨?_, hq, fun _ => hkeeps⟩
    -- a register that caches something is usable, and so it would be tracked
    rintro rfl
    have hmem := ht.mem_usable_of_resident? hq
    have hsize := size_le hN ht
    have hlt := (mem_usable.mp hmem).2
    rw [tracked?_ofNat hmem (by omega)] at hr
    cases hr

/-- **The code emitted for an instruction keeps a trail covering**, if the addresses that
the instruction reads keep their cells. -/
theorem covers_lowerInstruction (h : Covers τ t l) {i : SourceInstruction}
    (hi : τ.permits i = true) : (lowerInstruction t i).CoveredBy (τ.after i) l := by
  obtain ⟨hkeeps, hload⟩ := Bool.and_eq_true_iff.mp hi
  obtain ⟨op, a, b, c⟩ := i
  cases op with
  | unrecognized word => exact h
  | known op =>
    cases op with
    | binary op => exact covers_lowerBinary hN ht h op hkeeps
    | not => exact covers_lowerNot hN ht h (Bool.and_eq_true_iff.mp hkeeps).1
    | cop => exact covers_lowerCopy hN ht h (Bool.and_eq_true_iff.mp hkeeps).1
    | afc => exact covers_lowerConstant hN ht h a b
    | load => exact covers_lowerLoad hN ht h a hload
    | store =>
      exact h.stored fun q other hq =>
        Or.inr (Table.of_resident?_dropAddress ht.resident?_reserved hq)
    | jmf => exact covers_refill hN ht h (tracked?_scratch (one_lt_size hN ht)) a
    | push =>
      show Covers (τ.rebase (τ.ledger.base + a)) t ⟨l.base + a, l.copies⟩
      rw [h.base_eq]
      exact h.rebase (l.base + a)
    | pop =>
      show Covers (τ.rebase (τ.ledger.base - a)) t ⟨l.base - a, l.copies⟩
      rw [h.base_eq]
      exact h.rebase (l.base - a)
    | jmp | pri | ret | nop | call => exact h

end

end Lowering
end CrossAssembler
