import CrossAssembler.Proofs.Yaml.Format

/-!
# Written targets read back

A target file is written with a line for each field.  If the format reads such lines as the fields
they are, then every field is found, none of them twice, and nothing of the defaults is left.

Reading then comes down to validating.  A text that was written is well formed even if the
description in it cannot be used.

## Main results

* `setFields_of_map_eq` — fields that are found are taken over.
* `parse_write` — a written description is read as what it was.
* `written_targets_read_back` — reading what was written is validating it.
-/

namespace CrossAssembler
namespace Target

/-! ### Fields -/

theorem ofKey?_key (field : Field) : Field.ofKey? field.key = some field := by
  cases field <;> rfl

/-- **Fields that are found are taken over**, if none of them occurs twice. -/
theorem setFields_of_map_eq {fields : List (Field × UInt64)} {data : List (Datum × Datum)}
    (hdata : data.map (fun d => (d.1.name?, d.2.number?)) =
      fields.map fun f => (some f.1.key, some f.2))
    (hnodup : (fields.map Prod.fst).Nodup) {seen : List Field}
    (hseen : ∀ field ∈ fields.map Prod.fst, field ∉ seen) (t : Target) :
    setFields t seen data = some (fields.foldl (fun t f => t.set f.1 f.2) t) := by
  induction fields generalizing t data seen with
  | nil =>
    rw [List.map_eq_nil_iff.mp hdata]
    rfl
  | cons f fields ih =>
    obtain ⟨d, data, rfl, hd, hrest⟩ := List.map_eq_cons_iff.mp hdata
    obtain ⟨hname, hnumber⟩ := Prod.mk.inj hd
    obtain ⟨hfirst, hnodup⟩ := List.nodup_cons.mp hnodup
    obtain ⟨hunseen, hseen⟩ := List.forall_mem_cons.mp hseen
    have hlater : ∀ field ∈ fields.map Prod.fst, field ∉ f.1 :: seen := by
      intro field hfield hmem
      rcases List.mem_cons.mp hmem with rfl | hmem
      · exact hfirst hfield
      · exact hseen field hfield hmem
    rw [setFields, hname, Option.bind_some, ofKey?_key]
    simp only [if_neg hunseen, hnumber, Option.bind_some]
    exact ih hrest hnodup hlater (t.set f.1 f.2)

/-- The fields of a description, in the order they are written. -/
def fields (t : Target) : List (Field × UInt64) := Field.all.map fun field => (field, t.get field)

/-! ### Texts -/

/-- **A written description is read as what it was**, whether it can be used or not. -/
theorem parse_write {yaml : Format} (hwrite : yaml.WritesLines) (hread : yaml.ReadsLines)
    (t : Target) : parse yaml (t.write yaml) = .ok t := by
  have hne : t.fields ≠ [] := by simp [fields, Field.all]
  have htext : t.write yaml = Format.lines t.fields := hwrite t.fields hne
  obtain ⟨data, hdocument, hdata⟩ := hread t.fields hne
  have hnodup : (t.fields.map Prod.fst).Nodup := show Field.all.Nodup by decide
  have hfields : setFields .default [] data = some t :=
    setFields_of_map_eq hdata hnodup (fun _ _ => List.not_mem_nil) .default
  rw [parse, htext, hdocument, Option.bind_some, ofDocument?, hfields]

/-- Validation changes nothing, and what it finds wrong is a value, never the text. -/
theorem validate_cases (t : Target) :
    t.validate = .ok t ∨ ∃ e, t.validate = .error e ∧ e ≠ .malformed := by
  unfold validate
  split
  · exact .inr ⟨_, rfl, by simp⟩
  · split
    · exact .inr ⟨_, rfl, by simp⟩
    · split
      · exact .inr ⟨_, rfl, by simp⟩
      · exact .inl rfl

/-- **Written descriptions read back.**  Take a format that writes fields on lines of their own and
reads such lines.  Reading the text of a description gives what validating the description gives:
the description itself if it can be used, and what is wrong with it if not.  The text is never
malformed. -/
theorem written_targets_read_back {yaml : Format} (hwrite : yaml.WritesLines)
    (hread : yaml.ReadsLines) (t : Target) :
    ofYaml yaml (t.write yaml) = t.validate ∧
      (t.validate.isOk = true → ofYaml yaml (t.write yaml) = .ok t) ∧
      ofYaml yaml (t.write yaml) ≠ .error .malformed := by
  have hvalidate : ofYaml yaml (t.write yaml) = t.validate := by
    rw [ofYaml, parse_write hwrite hread]
    rfl
  rw [hvalidate]
  rcases t.validate_cases with hvalid | ⟨e, herror, he⟩
  · simp [hvalid]
  · simp [herror, he, Except.isOk, Except.toBool]

/-- In YAML the greatest numbers read back, and of two things wrong the first is reported. -/
theorem written_targets_read_back_greatest :
    let good : Target := ⟨256, 18446744073709551615, 18446744073709551615⟩
    let bad : Target := ⟨257, 0, 10⟩
    good.write Yaml.format = Text.unlines ["---", "registers: 256",
        "memory_size: 18446744073709551615", "max_iterations: 18446744073709551615"] ∧
      Yaml.format.WritesLines ∧ Yaml.format.ReadsLines ∧ good.validate.isOk = true ∧
      ofYaml Yaml.format (good.write Yaml.format) = .ok good ∧
      ofYaml Yaml.format (bad.write Yaml.format) = .error (.registers 257) := by
  intro good bad
  have hwrite := Yaml.writesLines_format
  have hread := Yaml.readsLines_format
  have hgood : good.validate.isOk = true := rfl
  refine ⟨by decide +kernel, hwrite, hread, hgood,
    (written_targets_read_back hwrite hread good).2.1 hgood, ?_⟩
  rw [(written_targets_read_back hwrite hread bad).1]
  rfl

end Target
end CrossAssembler
