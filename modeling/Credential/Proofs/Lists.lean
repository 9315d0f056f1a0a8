import Mathlib.Data.List.Forall2
/-!
# Credential.Proofs.Lists — lists side by side

Where one list is made of another item by item, `List.Forall₂` relates the two. A map that may fail on an
item gives such a list when it succeeds. Where numbers are taken from the items, the greatest of them bounds
each and is bounded by what bounds each.
-/

namespace Credential

open List (Forall₂)

variable {α β γ : Type}

theorem map_eq_self {f : α → α} {xs : List α} : xs.map f = xs ↔ ∀ x ∈ xs, f x = x := by
  conv_lhs => rhs; rw [← List.map_id xs]
  rw [List.map_inj_left]
  rfl

theorem forall₂_of_mapM {f : α → Option β} {xs : List α} {ys : List β}
    (h : xs.mapM f = some ys) : Forall₂ (fun x y => f x = some y) xs ys := by
  induction xs generalizing ys with
  | nil =>
    obtain rfl : [] = ys := by simpa using h
    exact .nil
  | cons x xs ih =>
    rw [List.mapM_cons] at h
    obtain ⟨y, hy, h⟩ := Option.bind_eq_some_iff.mp h
    obtain ⟨rest, hrest, h⟩ := Option.bind_eq_some_iff.mp h
    cases h
    exact .cons hy (ih hrest)

theorem mapM_of_forall₂ {f : α → Option β} {xs : List α} {ys : List β}
    (h : Forall₂ (fun x y => f x = some y) xs ys) : xs.mapM f = some ys := by
  induction h with
  | nil => rfl
  | cons hxy _ ih =>
    rw [List.mapM_cons, hxy, ih]
    rfl

/-- What holds of every result holds of the results of a map that succeeds. -/
theorem forall_of_mapM {f : α → Option β} {p : β → Prop} (hf : ∀ x y, f x = some y → p y) {xs : List α}
    {ys : List β} (h : xs.mapM f = some ys) : ∀ y ∈ ys, p y := by
  have hall := forall₂_of_mapM h
  induction hall with
  | nil => exact fun _ hy => absurd hy List.not_mem_nil
  | cons hfirst hrest ih =>
    exact List.forall_mem_cons.mpr ⟨hf _ _ hfirst, ih (mapM_of_forall₂ hrest)⟩

theorem exists_mapM {f : α → Option β} {xs : List α} (h : ∀ x ∈ xs, ∃ y, f x = some y) :
    ∃ ys, xs.mapM f = some ys := by
  induction xs with
  | nil => exact ⟨[], rfl⟩
  | cons x xs ih =>
    obtain ⟨hx, hxs⟩ := List.forall_mem_cons.mp h
    obtain ⟨y, hy⟩ := hx
    obtain ⟨ys, hys⟩ := ih hxs
    exact ⟨y :: ys, by rw [List.mapM_cons, hy, hys]; rfl⟩

theorem forall₂_trans {R : α → β → Prop} {S : β → γ → Prop} {xs : List α} {ys : List β}
    {zs : List γ} (h : Forall₂ R xs ys) (h' : Forall₂ S ys zs) :
    Forall₂ (fun x z => ∃ y, R x y ∧ S y z) xs zs := by
  induction h generalizing zs with
  | nil =>
    cases h'
    exact .nil
  | cons hxy _ ih =>
    cases h' with
    | cons hyz hrest => exact .cons ⟨_, hxy, hyz⟩ (ih hrest)

theorem exists_zip_of_forall₂ {R : α → β → Prop} {xs : List α} {ys : List β}
    (h : Forall₂ R xs ys) {y : β} (hy : y ∈ ys) : ∃ x, (x, y) ∈ xs.zip ys ∧ R x y := by
  induction h with
  | nil => cases hy
  | @cons x y' xs ys hxy _ ih =>
    rcases List.mem_cons.mp hy with rfl | hy
    · exact ⟨x, List.mem_cons_self, hxy⟩
    · obtain ⟨x', hzip, hR⟩ := ih hy
      exact ⟨x', List.mem_cons_of_mem _ hzip, hR⟩

theorem map_eq_map_iff {f : α → γ} {g : β → γ} {xs : List α} {ys : List β} :
    xs.map f = ys.map g ↔ Forall₂ (fun x y => f x = g y) xs ys := by
  rw [← List.forall₂_eq_eq_eq, List.forall₂_map_left_iff, List.forall₂_map_right_iff]

/-- What is known of every item of the second list may be added to the relation. -/
theorem forall₂_and_right {R : α → β → Prop} {p : β → Prop} {xs : List α} {ys : List β}
    (h : Forall₂ R xs ys) (hp : ∀ y ∈ ys, p y) : Forall₂ (fun x y => R x y ∧ p y) xs ys := by
  have hboth := (List.forall₂_and_left _ _).mpr ⟨hp, h.flip⟩
  exact hboth.flip.imp fun x y hxy => ⟨hxy.2, hxy.1⟩

/-- What stands in the first of two related lists has its counterpart in the second. -/
theorem exists_of_mem_left {R : α → β → Prop} {xs : List α} {ys : List β}
    (h : Forall₂ R xs ys) {x : α} (hx : x ∈ xs) : ∃ y ∈ ys, R x y := by
  induction h with
  | nil => cases hx
  | cons hfirst _ ih =>
    rcases List.mem_cons.mp hx with rfl | hrest
    · exact ⟨_, List.mem_cons_self, hfirst⟩
    · obtain ⟨y, hy, hxy⟩ := ih hrest
      exact ⟨y, List.mem_cons_of_mem _ hy, hxy⟩

/-- A part of the first of two related lists has its counterpart in the second. -/
theorem exists_sublist_of_forall₂ {R : α → β → Prop} {part xs : List α} (hsub : part.Sublist xs) :
    ∀ {ys : List β}, Forall₂ R xs ys → ∃ counterpart, Forall₂ R part counterpart ∧ counterpart.Sublist ys := by
  induction hsub with
  | slnil =>
    intro ys h
    exact ⟨ys, h, .refl ys⟩
  | cons x _ ih =>
    rintro _ (_ | ⟨-, hrest⟩)
    obtain ⟨counterpart, hpart, hys⟩ := ih hrest
    exact ⟨counterpart, hpart, hys.cons _⟩
  | cons_cons x _ ih =>
    rintro _ (_ | ⟨hfirst, hrest⟩)
    obtain ⟨counterpart, hpart, hys⟩ := ih hrest
    exact ⟨_ :: counterpart, .cons hfirst hpart, hys.cons_cons _⟩

/-- Lists are the same if related items are. -/
theorem eq_of_forall₂ {R : α → α → Prop} {xs ys : List α} (h : Forall₂ R xs ys)
    (heq : ∀ x ∈ xs, ∀ y, R x y → x = y) : xs = ys := by
  induction h with
  | nil => rfl
  | cons hxy _ ih =>
    obtain ⟨hfirst, hrest⟩ := List.forall_mem_cons.mp heq
    rw [hfirst _ hxy, ih hrest]

/-- The first hit in lists one after the other is that of the first list with a hit. -/
theorem findSome?_flatMap {f : α → List β} {g : β → Option γ} {xs : List α} :
    (xs.flatMap f).findSome? g = xs.findSome? fun x => (f x).findSome? g := by
  induction xs with
  | nil => rfl
  | cons x xs ih =>
    rw [List.flatMap_cons, List.findSome?_append, ih, List.findSome?_cons]
    cases (f x).findSome? g <;> rfl

section Greatest

variable {f : α → Nat} {g : List α → Nat}

/-- The greatest of some numbers, taken along a list, is no less than any of them. -/
theorem le_greatest (h : ∀ x xs, g (x :: xs) = max (f x) (g xs)) {xs : List α} {x : α}
    (hx : x ∈ xs) : f x ≤ g xs := by
  induction xs with
  | nil => cases hx
  | cons first rest ih =>
    rw [h]
    rcases List.mem_cons.mp hx with rfl | hx
    · exact Nat.le_max_left _ _
    · exact Nat.le_trans (ih hx) (Nat.le_max_right _ _)

theorem greatest_le (hnil : g [] = 0)
    (h : ∀ x xs, g (x :: xs) = max (f x) (g xs)) {xs : List α} {n : Nat}
    (hn : ∀ x ∈ xs, f x ≤ n) : g xs ≤ n := by
  induction xs with
  | nil => exact hnil ▸ Nat.zero_le n
  | cons first rest ih =>
    obtain ⟨hfirst, hrest⟩ := List.forall_mem_cons.mp hn
    rw [h]
    exact Nat.max_le.mpr ⟨hfirst, ih hrest⟩

end Greatest

/-- A thing that may be missing is related to itself if all things are. -/
theorem rel_option_refl {R : α → α → Prop} (h : ∀ x, R x x) (x : Option α) : Option.Rel R x x := by
  cases x with
  | none => exact .none
  | some x => exact .some (h x)

theorem exists_of_rel_some {R : α → β → Prop} {x : α} {y : Option β} (h : Option.Rel R (some x) y) :
    ∃ b, y = some b ∧ R x b := by
  cases h with
  | some h => exact ⟨_, rfl, h⟩

theorem rel_option_imp {R S : α → β → Prop} {x : Option α} {y : Option β} (h : Option.Rel R x y)
    (hR : ∀ a b, R a b → S a b) : Option.Rel S x y := by
  cases h with
  | none => exact .none
  | some h => exact .some (hR _ _ h)

theorem rel_option_eq {x y : Option α} : Option.Rel Eq x y ↔ x = y := by
  constructor
  · intro h
    cases h with
    | none => rfl
    | some h => rw [h]
  · rintro rfl
    exact rel_option_refl (fun _ => rfl) x

/-- What determines a thing determines it where it may be missing. -/
theorem leftUnique_option {R : α → β → Prop} (h : Relator.LeftUnique R) :
    Relator.LeftUnique (Option.Rel R) := by
  intro x y z hx hy
  cases hx with
  | none =>
    cases hy
    rfl
  | some hx =>
    cases hy with
    | some hy => rw [h hx hy]

end Credential
