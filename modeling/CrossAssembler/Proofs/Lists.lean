/-!
# Lists that are searched, folded and numbered

A loop whose body may fail is the loop without failure if the body never fails where it is
executed.  What is found by walking through a numbered list is found in the order of the numbers.
-/

namespace CrossAssembler

/-! ### Loops that may fail -/

/-- A search whose test never fails is an ordinary search. -/
theorem findM?_eq_some_find? {α : Type} {f : α → Option Bool} {p : α → Bool} {xs : List α}
    (h : ∀ x ∈ xs, f x = some (p x)) : xs.findM? f = some (xs.find? p) := by
  induction xs with
  | nil => rfl
  | cons x xs ih =>
    have hx := h x List.mem_cons_self
    have hxs := ih fun y hy => h y (List.mem_cons_of_mem x hy)
    cases hp : p x with
    | true => simp [List.findM?, hx, hp]
    | false => simp [List.findM?, hx, hp, hxs]

/-- A loop whose body never fails as long as `P` holds, and keeps `P`, is an ordinary
loop. -/
theorem foldlM_eq_some_foldl {α β : Type} {P : β → Prop} {f : β → α → Option β}
    {g : β → α → β} {xs : List α} {b : β} (hb : P b)
    (h : ∀ b, P b → ∀ x ∈ xs, f b x = some (g b x) ∧ P (g b x)) :
    xs.foldlM f b = some (xs.foldl g b) := by
  induction xs generalizing b with
  | nil => rfl
  | cons x xs ih =>
    obtain ⟨hx, hP⟩ := h b hb x List.mem_cons_self
    rw [List.foldlM_cons, hx, List.foldl_cons]
    exact ih hP fun b hb y hy => h b hb y (List.mem_cons_of_mem x hy)

/-! ### Numbers -/

/-- Positions in a list come in order. -/
theorem pairwise_zipIdx {α : Type} (xs : List α) (start : Nat) :
    (xs.zipIdx start).Pairwise fun x y => x.2 < y.2 := by
  rw [← List.pairwise_map (R := (· < ·)), List.zipIdx_map_snd]
  exact List.pairwise_lt_range'

end CrossAssembler
