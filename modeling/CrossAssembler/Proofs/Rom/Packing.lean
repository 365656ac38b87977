import CrossAssembler.Proofs.Lists
import CrossAssembler.Rom.Image

/-!
# Packing loses nothing silently

A word has room for three bytes of operands, and an operand has eight bytes.  What does not
fit is cut to its value modulo 256.  Each operand that is cut is reported with its address,
its position and its value, and no other is, so a program can be told from its image: the
words say what its operations are and the reports what the words do not say.

## Main definitions

* `Overflow.Reports` — a report is about an operand of a program, and right about it.
* `Overflow.Before` — reports come by address, and then by position.

## Main results

* `fits_iff` — the operands that fit are those from 0 to 255.
* `decodeWord?_word` — what a word spells is the instruction with its operands cut.
* `Image.mem_overflows_iff`, `Image.pairwise_overflows` — the reports of an image.
* `Image.eq_of_ofCode_eq` — programs with the same image are the same.
* `packing_loses_nothing` — all of this at once.
-/

namespace CrossAssembler
namespace Rom

/-! ### Bytes -/

/-- The lowest eight bits of an operand are its value modulo 256. -/
theorem toNat_lowByte (v : Int64) : ((lowByte v).toNat : Int) = v.toInt % 256 := by
  have hlt : v.toUInt64.toNat < 18446744073709551616 := v.toUInt64.toNat_lt
  have hv : v.toInt = (v.toUInt64.toNat : Int).bmod 18446744073709551616 :=
    BitVec.toInt_eq_toNat_bmod v.toBitVec
  have hbits : v.toInt % 18446744073709551616 = v.toUInt64.toNat % 18446744073709551616 := by
    rw [hv]
    exact Int.bmod_emod
  have hbyte : (lowByte v).toNat = v.toUInt64.toNat % 256 := UInt64.toNat_toUInt8 _
  omega

theorem toInt_ofByte (byte : UInt8) : (ofByte byte).toInt = byte.toNat := by
  have hlt := byte.toNat_lt
  exact Int64.toInt_ofNat_of_lt (Nat.lt_trans hlt (by decide))

/-- An operand fits if it is a byte. -/
theorem fits_iff {v : Int64} : Fits v ↔ 0 ≤ v.toInt ∧ v.toInt ≤ 255 := by
  rw [Fits, ← Int64.toInt_inj, toInt_ofByte, toNat_lowByte]
  omega

/-! ### Words -/

/-- Shifting in a byte multiplies by 256 and adds it, as long as nothing is shifted out. -/
theorem toNat_shiftIn {w : UInt32} (h : w.toNat < 0x1000000) (byte : UInt8) :
    (shiftIn w byte).toNat = w.toNat * 256 + byte.toNat := by
  have hshift : (w <<< 8).toNat = w.toNat <<< 8 := by
    rw [UInt32.toNat_shiftLeft, show (8 : UInt32).toNat % 32 = 8 from rfl, Nat.shiftLeft_eq]
    omega
  rw [shiftIn, UInt32.toNat_or, hshift, UInt8.toNat_toUInt32,
    ← Nat.shiftLeft_add_eq_or_of_lt byte.toNat_lt, Nat.shiftLeft_eq]

/-- The word of an instruction has the bytes of the instruction as digits. -/
theorem toNat_word_eq (i : LoweredInstruction) :
    (word i).toNat = ((i.op.encoding * 256 + (lowByte i.a).toNat) * 256 + (lowByte i.b).toNat) * 256
      + (lowByte i.c).toNat := by
  have hop := i.op.encoding_lt
  have ha := (lowByte i.a).toNat_lt
  have hb := (lowByte i.b).toNat_lt
  have hencoding : (UInt32.ofNat i.op.encoding).toNat = i.op.encoding :=
    UInt32.toNat_ofNat_of_lt' (show _ < 4294967296 by omega)
  have hword : word i =
      shiftIn (shiftIn (shiftIn (.ofNat i.op.encoding) (lowByte i.a)) (lowByte i.b))
        (lowByte i.c) := rfl
  have hfirst := toNat_shiftIn (w := .ofNat i.op.encoding) (by omega) (lowByte i.a)
  have hsecond := toNat_shiftIn
    (w := shiftIn (.ofNat i.op.encoding) (lowByte i.a)) (by omega) (lowByte i.b)
  rw [hword, toNat_shiftIn (by omega), hsecond, hfirst, hencoding]

/-- The word of an instruction as a number. -/
theorem toNat_word (i : LoweredInstruction) :
    ((word i).toNat : Int) = i.op.encoding * 0x1000000 + i.a.toInt % 256 * 0x10000 +
      i.b.toInt % 256 * 0x100 + i.c.toInt % 256 := by
  rw [toNat_word_eq, ← toNat_lowByte, ← toNat_lowByte, ← toNat_lowByte]
  omega

/-- The bytes of a word are found where they were put. -/
theorem bytes_word (i : LoweredInstruction) :
    let n := (word i).toNat
    n >>> 24 = i.op.encoding ∧ n >>> (8 * 2) % 256 = (lowByte i.a).toNat ∧
      n >>> (8 * 1) % 256 = (lowByte i.b).toNat ∧ n >>> (8 * 0) % 256 = (lowByte i.c).toNat := by
  have ha := (lowByte i.a).toNat_lt
  have hb := (lowByte i.b).toNat_lt
  have hc := (lowByte i.c).toNat_lt
  simp only [toNat_word_eq, Nat.shiftRight_eq_div_pow]
  omega

/-- **What a word spells** is the instruction with its operands cut to bytes. -/
theorem decodeWord?_word (i : LoweredInstruction) :
    decodeWord? (word i) =
      some ⟨i.op, ofByte (lowByte i.a), ofByte (lowByte i.b), ofByte (lowByte i.c)⟩ := by
  obtain ⟨hop, ha, hb, hc⟩ := bytes_word i
  simp only [decodeWord?, hop, ha, hb, hc, Opcode.ofEncoding?_encoding, Option.map_some]
  rfl

/-- If all operands fit, a word spells its instruction. -/
theorem decodeWord?_word_of_fits {i : LoweredInstruction} (h : ∀ v ∈ i.operands, Fits v) :
    decodeWord? (word i) = some i := by
  obtain ⟨op, a, b, c⟩ := i
  have ha : ofByte (lowByte a) = a := h a (by simp [Instruction.operands])
  have hb : ofByte (lowByte b) = b := h b (by simp [Instruction.operands])
  have hc : ofByte (lowByte c) = c := h c (by simp [Instruction.operands])
  rw [decodeWord?_word, ha, hb, hc]

/-! ### Reports -/

namespace Overflow

/-- The report is about an operand of the code that is no byte, and says what was written
in its place. -/
structure Reports (code : List LoweredInstruction) (o : Overflow) : Prop where
  /-- The operand is there. -/
  operand : ∃ i, code[o.address]? = some i ∧ 1 ≤ o.field ∧
    i.operands[o.field - 1]? = some o.value
  /-- It does not fit. -/
  outside : ¬ (0 ≤ o.value.toInt ∧ o.value.toInt ≤ 255)
  /-- It was written modulo 256. -/
  written : (o.written.toNat : Int) = o.value.toInt % 256

/-- The first report comes first: its address is lower, or the position at the same address
is. -/
def Before (o o' : Overflow) : Prop :=
  o.address < o'.address ∨ o.address = o'.address ∧ o.field < o'.field

end Overflow

/-- The reports on an instruction. -/
theorem mem_overflows_iff {address : Nat} {i : LoweredInstruction} {o : Overflow} :
    o ∈ overflows address i ↔ o.address = address ∧ 1 ≤ o.field ∧
      i.operands[o.field - 1]? = some o.value ∧ ¬ Fits o.value ∧ o.written = lowByte o.value := by
  simp only [overflows, List.mem_filterMap, Prod.exists,
    List.mk_mem_zipIdx_iff_le_and_getElem?_sub, Option.ite_none_left_eq_some, Option.some.injEq]
  constructor
  · rintro ⟨value, field, ⟨hfield, hvalue⟩, hfits, rfl⟩
    exact ⟨rfl, hfield, hvalue, hfits, rfl⟩
  · rintro ⟨rfl, hfield, hvalue, hfits, hwritten⟩
    exact ⟨o.value, o.field, ⟨hfield, hvalue⟩, hfits, by rw [← hwritten]⟩

/-- The reports on an instruction come by position. -/
theorem pairwise_overflows (address : Nat) (i : LoweredInstruction) :
    (overflows address i).Pairwise Overflow.Before := by
  rw [overflows, List.pairwise_filterMap]
  refine (pairwise_zipIdx i.operands 1).imp fun hlt o ho o' ho' => ?_
  simp only [Option.ite_none_left_eq_some, Option.some.injEq] at ho ho'
  obtain ⟨-, rfl⟩ := ho
  obtain ⟨-, rfl⟩ := ho'
  exact Or.inr ⟨rfl, hlt⟩

namespace Image

variable {code other : List LoweredInstruction}

/-- **The reports of an image** are on all operands that do not fit, and on no others. -/
theorem mem_overflows_iff {o : Overflow} : o ∈ (ofCode code).overflows ↔ o.Reports code := by
  simp only [ofCode, List.mem_flatMap, Prod.exists, List.mem_zipIdx_iff_getElem?,
    Rom.mem_overflows_iff]
  constructor
  · rintro ⟨i, address, hi, rfl, hfield, hvalue, hfits, hwritten⟩
    refine ⟨⟨i, hi, hfield, hvalue⟩, fun hrange => hfits (fits_iff.mpr hrange), ?_⟩
    rw [hwritten, toNat_lowByte]
  · rintro ⟨⟨i, hi, hfield, hvalue⟩, houtside, hwritten⟩
    refine ⟨i, o.address, hi, rfl, hfield, hvalue, fun hfits => houtside (fits_iff.mp hfits), ?_⟩
    rw [← toNat_lowByte] at hwritten
    exact UInt8.toNat_inj.mp (Int.ofNat.inj hwritten)

/-- **The reports of an image are in order.** -/
theorem pairwise_overflows (code : List LoweredInstruction) :
    (ofCode code).overflows.Pairwise Overflow.Before := by
  rw [ofCode, List.pairwise_flatMap]
  refine ⟨fun call _ => Rom.pairwise_overflows call.2 call.1, ?_⟩
  refine (pairwise_zipIdx code 0).imp fun hlt o ho o' ho' => Or.inl ?_
  rwa [(Rom.mem_overflows_iff.mp ho).1, (Rom.mem_overflows_iff.mp ho').1]

/-- An operand that does not fit is reported. -/
theorem mem_overflows_of_not_fits {address field : Nat} {i : LoweredInstruction} {v : Int64}
    (hi : code[address]? = some i) (hv : i.operands[field]? = some v) (hfits : ¬ Fits v) :
    ⟨address, field + 1, v, lowByte v⟩ ∈ (ofCode code).overflows :=
  mem_overflows_iff.mpr ⟨⟨i, hi, Nat.le_add_left 1 field, hv⟩,
    fun hrange => hfits (fits_iff.mpr hrange), toNat_lowByte v⟩

/-- The words of a program without reports spell it. -/
theorem decode_words (h : (ofCode code).overflows = []) :
    (ofCode code).words.map decodeWord? = code.map some := by
  rw [ofCode, List.map_map]
  refine List.map_congr_left fun i hi => decodeWord?_word_of_fits fun v hv => ?_
  obtain ⟨address, haddress⟩ := List.mem_iff_getElem?.mp hi
  obtain ⟨field, hfield⟩ := List.mem_iff_getElem?.mp hv
  by_cases hfits : Fits v
  · exact hfits
  · have hreport := mem_overflows_of_not_fits haddress hfield hfits
    rw [h] at hreport
    cases hreport

/-! ### Programs with the same image -/

section

variable {address k : Nat} {i j : LoweredInstruction} {u v : Int64}

/-- An operand that does not fit is found in any program with the same reports. -/
theorem eq_of_not_fits (h : (ofCode code).overflows = (ofCode other).overflows)
    (hi : code[address]? = some i) (hj : other[address]? = some j)
    (hu : i.operands[k]? = some u) (hv : j.operands[k]? = some v) (hfits : ¬ Fits u) :
    u = v := by
  have hreport := mem_overflows_of_not_fits hi hu hfits
  rw [h] at hreport
  obtain ⟨j', hj', -, hu'⟩ := (mem_overflows_iff.mp hreport).operand
  cases hj.symm.trans hj'
  exact Option.some.inj (hu'.symm.trans hv)

/-- Operands at the same place that are written alike are the same if the reports are: the
byte that is written determines those that fit, and the report those that do not. -/
theorem operand_eq (h : (ofCode code).overflows = (ofCode other).overflows)
    (hi : code[address]? = some i) (hj : other[address]? = some j)
    (hu : i.operands[k]? = some u) (hv : j.operands[k]? = some v)
    (hbyte : ofByte (lowByte u) = ofByte (lowByte v)) : u = v := by
  by_cases hfits : Fits u
  · by_cases hfits' : Fits v
    · calc u = ofByte (lowByte u) := hfits.symm
        _ = ofByte (lowByte v) := hbyte
        _ = v := hfits'
    · exact (eq_of_not_fits h.symm hj hi hv hu hfits').symm
  · exact eq_of_not_fits h hi hj hu hv hfits

/-- Instructions at the same address are the same if their words and the reports are. -/
theorem instruction_eq (h : (ofCode code).overflows = (ofCode other).overflows)
    (hi : code[address]? = some i) (hj : other[address]? = some j) (hword : word i = word j) :
    i = j := by
  have hspelled := congrArg decodeWord? hword
  rw [decodeWord?_word, decodeWord?_word, Option.some.injEq, Instruction.mk.injEq] at hspelled
  obtain ⟨hop, ha, hb, hc⟩ := hspelled
  have ha' : i.a = j.a := operand_eq (k := 0) h hi hj rfl rfl ha
  have hb' : i.b = j.b := operand_eq (k := 1) h hi hj rfl rfl hb
  have hc' : i.c = j.c := operand_eq (k := 2) h hi hj rfl rfl hc
  obtain ⟨op, a, b, c⟩ := i
  obtain ⟨op', a', b', c'⟩ := j
  cases hop
  cases ha'
  cases hb'
  cases hc'
  rfl

end

/-- **Programs with the same image are the same.** -/
theorem eq_of_ofCode_eq (h : ofCode code = ofCode other) : code = other := by
  have hwords : code.map word = other.map word := congrArg words h
  refine List.ext_getElem? fun address => ?_
  have hword := congrArg (·[address]?) hwords
  simp only [List.getElem?_map] at hword
  cases hi : code[address]? with
  | none =>
    rw [hi] at hword
    exact (Option.map_eq_none_iff.mp hword.symm).symm
  | some i =>
    rw [hi] at hword
    obtain ⟨j, hj, hword⟩ := Option.map_eq_some_iff.mp hword.symm
    rw [hj, instruction_eq (congrArg overflows h) hi hj hword.symm]

end Image

/-- **Packing loses nothing silently.**  The image of a program has one word for each
instruction: the encoding of the operation and the operands modulo 256.  Its reports are on
the operands outside 0 to 255, by address and position.  Words and reports together determine
the program, and if there are no reports, then its words spell it. -/
theorem packing_loses_nothing (code : List LoweredInstruction) :
    let image := Image.ofCode code
    image.words.length = code.length ∧
      (∀ (address : Nat) (i : LoweredInstruction), code[address]? = some i →
        ∃ w, image.words[address]? = some w ∧
          (w.toNat : Int) = i.op.encoding * 0x1000000 + i.a.toInt % 256 * 0x10000 +
            i.b.toInt % 256 * 0x100 + i.c.toInt % 256) ∧
      (∀ o, o ∈ image.overflows ↔ o.Reports code) ∧
      image.overflows.Pairwise Overflow.Before ∧
      (∀ other, Image.ofCode other = image → other = code) ∧
      (image.overflows = [] → image.words.map decodeWord? = code.map some) := by
  intro image
  refine ⟨List.length_map word, fun address i hi => ⟨word i, ?_, toNat_word i⟩,
    fun o => Image.mem_overflows_iff, Image.pairwise_overflows code,
    fun other => Image.eq_of_ofCode_eq, Image.decode_words⟩
  show (code.map word)[address]? = some (word i)
  rw [List.getElem?_map, hi]
  rfl

/-- Of two operands that do not fit, one is negative; no other program has this image. -/
theorem packing_loses_nothing_add :
    let code : List LoweredInstruction := [⟨.nop, 0, 0, 0⟩, ⟨.binary .add, -1, 255, 300⟩]
    (Image.ofCode code).words = [0, 0x01ffff2c] ∧
      (Image.ofCode code).overflows = [⟨1, 1, -1, 255⟩, ⟨1, 3, 300, 44⟩] ∧
      ∀ other, Image.ofCode other = Image.ofCode code → other = code := by
  intro code
  obtain ⟨-, -, -, -, hdetermined, -⟩ := packing_loses_nothing code
  exact ⟨by decide +kernel, by decide +kernel, hdetermined⟩

end Rom
end CrossAssembler
