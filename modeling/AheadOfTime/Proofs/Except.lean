import Mathlib.Data.List.Forall2
import Mathlib.Logic.Basic
import Mathlib.Tactic.SplitIfs

/-! When a chain of steps that may fail succeeds, lists that agree entry by entry, and tables from
which an entry was taken. -/

namespace AheadOfTime

variable {ε α β : Type}

theorem Except.bind_eq_ok {x : Except ε α} {f : α → Except ε β} {b : β} :
    x >>= f = .ok b ↔ ∃ a, x = .ok a ∧ f a = .ok b := by
  cases x with
  | error e => exact ⟨fun h => (nomatch h), fun ⟨_, h, _⟩ => (nomatch h)⟩
  | ok a => exact ⟨fun h => ⟨a, rfl, h⟩, fun ⟨_, rfl, h⟩ => h⟩

theorem Except.map_eq_ok {x : Except ε α} {f : α → β} {b : β} :
    x.map f = .ok b ↔ ∃ a, x = .ok a ∧ f a = b := by
  cases x with
  | error e => simp [Except.map]
  | ok a => simp [Except.map]

theorem Except.map_eq_error {x : Except ε α} {f : α → β} {e : ε} :
    x.map f = .error e ↔ x = .error e := by
  cases x <;> simp [Except.map]

theorem Except.mapM_map {γ : Type} (g : α → Except ε β) (f : β → γ) (xs : List α) :
    (xs.mapM fun x => (g x).map f) = (xs.mapM g).map (List.map f) := by
  induction xs with
  | nil => rfl
  | cons x xs ih =>
    rw [List.mapM_cons, List.mapM_cons, ih]
    cases g x with
    | error e => rfl
    | ok y => cases xs.mapM g <;> rfl

theorem Except.mapM_eq_ok {f : α → Except ε β} : ∀ {xs : List α} {ys : List β},
    xs.mapM f = .ok ys ↔ List.Forall₂ (fun x y => f x = .ok y) xs ys
  | [], ys => by
    rw [List.mapM_nil, List.forall₂_nil_left_iff]
    exact ⟨fun h => by cases h; rfl, fun h => by rw [h]; rfl⟩
  | x :: xs, ys => by
    rw [List.mapM_cons, Except.bind_eq_ok, List.forall₂_cons_left_iff]
    refine exists_congr fun y => ?_
    rw [Except.bind_eq_ok]
    constructor
    · rintro ⟨hy, ys', hys', h⟩
      cases h
      exact ⟨ys', hy, Except.mapM_eq_ok.mp hys', rfl⟩
    · rintro ⟨ys', hy, hys', rfl⟩
      exact ⟨hy, ys', Except.mapM_eq_ok.mpr hys', rfl⟩

/-- A function that succeeds on every entry succeeds on the list. -/
theorem Except.mapM_ok {f : α → Except ε β} {xs : List α} (h : ∀ x ∈ xs, ∃ y, f x = .ok y) :
    ∃ ys, xs.mapM f = .ok ys := by
  induction xs with
  | nil => exact ⟨[], rfl⟩
  | cons x xs ih =>
    obtain ⟨y, hy⟩ := h x List.mem_cons_self
    obtain ⟨ys, hys⟩ := ih fun x hx => h x (List.mem_cons_of_mem _ hx)
    exact ⟨y :: ys, Except.mapM_eq_ok.mpr (.cons hy (Except.mapM_eq_ok.mp hys))⟩

theorem exists_mem_right {α γ : Type} {R : α → γ → Prop} {xs : List α} {ys : List γ}
    (h : List.Forall₂ R xs ys) : ∀ x ∈ xs, ∃ y ∈ ys, R x y := by
  induction h with
  | nil => simp
  | cons hxy _ ih =>
    intro x hx
    rcases List.mem_cons.mp hx with rfl | hx
    · exact ⟨_, List.mem_cons_self, hxy⟩
    · obtain ⟨y, hy, hxy⟩ := ih x hx
      exact ⟨y, List.mem_cons_of_mem _ hy, hxy⟩

theorem exists_mem_left {α γ : Type} {R : α → γ → Prop} {xs : List α} {ys : List γ}
    (h : List.Forall₂ R xs ys) : ∀ y ∈ ys, ∃ x ∈ xs, R x y :=
  exists_mem_right h.flip

theorem lookup_filter_ne {γ : Type} [DecidableEq α] [BEq α] [LawfulBEq α] (l : List (α × γ))
    (a b : α) :
    (l.filter (·.1 ≠ b)).lookup a = if a = b then none else l.lookup a := by
  induction l with
  | nil => simp
  | cons x l ih =>
    obtain ⟨c, v⟩ := x
    by_cases hc : c = b
    · rw [List.filter_cons_of_neg (by simp [hc]), ih, List.lookup_cons]
      split_ifs with ha
      · rfl
      · rw [hc, beq_false_of_ne ha]
    · rw [List.filter_cons_of_pos (by simp [hc]), List.lookup_cons, List.lookup_cons, ih]
      split_ifs with ha
      · rw [ha, beq_false_of_ne (Ne.symm hc)]
      · rfl

end AheadOfTime
