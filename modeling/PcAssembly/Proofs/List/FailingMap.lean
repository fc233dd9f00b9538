/-! # Maps and searches that can fail

    A list is mapped by a function that can fail on an element: it succeeds as a
    whole exactly if it does on every element, and then the results come in the
    order of the elements.  A search among finitely many values, each with a word
    of its own, finds the one with the word that is given. -/

namespace PcAssembly

/-- A map that can fail succeeds on a list if it does on every element. -/
theorem mapM_eq_some_iff {α β : Type} {f : α → Option β} {xs : List α} {ys : List β} :
    xs.mapM f = some ys ↔ xs.map f = ys.map some := by
  induction xs generalizing ys with
  | nil => cases ys <;> simp
  | cons x xs ih =>
      cases ys with
      | nil => cases hx : f x <;> cases hxs : xs.mapM f <;> simp [List.mapM_cons, hx, hxs]
      | cons y ys =>
          rw [List.map_cons, List.map_cons, List.cons.injEq, ← ih]
          cases hx : f x <;> cases hxs : xs.mapM f <;> simp [List.mapM_cons, hx, hxs]

theorem exists_map_eq_map_some {α β : Type} {f : α → Option β} {xs : List α}
    (h : ∀ x ∈ xs, f x ≠ none) : ∃ ys : List β, xs.map f = ys.map some := by
  induction xs with
  | nil => exact ⟨[], rfl⟩
  | cons x xs ih =>
      obtain ⟨y, hy⟩ := Option.ne_none_iff_exists'.mp (h x List.mem_cons_self)
      obtain ⟨ys, hys⟩ := ih fun x' hx' => h x' (List.mem_cons_of_mem _ hx')
      exact ⟨y :: ys, by rw [List.map_cons, hy, hys, List.map_cons]⟩

/-- Looking for a word finds the value that has it. -/
theorem find?_word_eq_some_iff {α : Type} {all : List α} {word : α → String} {given : String}
    {x : α} (hall : ∀ x, all.find? (fun y => word y == word x) = some x) :
    all.find? (fun y => word y == given) = some x ↔ given = word x := by
  constructor
  · intro h
    have hword := List.find?_some h
    exact (beq_iff_eq.mp hword).symm
  · rintro rfl
    exact hall x

end PcAssembly
