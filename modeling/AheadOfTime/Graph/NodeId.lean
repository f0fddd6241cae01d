/-! Handles of nodes: positions in an arena of at most `2 ^ 32` slots. That there are only so many
is what makes every walk over nodes end. -/

namespace AheadOfTime

structure NodeId where
  index : Nat
  index_lt : index < 0x100000000
deriving DecidableEq

namespace NodeId

/-- The handle of an arena slot, if handles reach so far. -/
def ofIndex? (i : Nat) : Option NodeId := if h : i < 0x100000000 then some ⟨i, h⟩ else none

/-- One of the first handles, which every arena has. -/
def small (i : Fin 16) : NodeId := ⟨i, Nat.lt_of_lt_of_le i.isLt (by decide)⟩

def label (n : NodeId) : String := "node#" ++ toString n.index

/-- How many handles a list leaves out. -/
def unlisted (ns : List NodeId) : Nat :=
  (List.range 0x100000000).countP fun i => ns.all (·.index != i)

theorem countP_lt_countP {α : Type} {p q : α → Bool} {l : List α} (hpq : ∀ x ∈ l, p x → q x)
    {a : α} (ha : a ∈ l) (hp : p a = false) (hq : q a) : l.countP p < l.countP q := by
  induction l with
  | nil => simp at ha
  | cons b l ih =>
    have hb := hpq b (by simp)
    have hle : l.countP p ≤ l.countP q :=
      List.countP_mono_left fun x hx => hpq x (by simp [hx])
    rcases List.mem_cons.mp ha with rfl | ha
    · simp [hp, hq]; omega
    · have := ih (fun x hx => hpq x (by simp [hx])) ha
      rw [List.countP_cons, List.countP_cons]
      by_cases h : p b <;> simp_all
      omega

theorem unlisted_lt {ns : List NodeId} {n : NodeId} (h : n ∉ ns) :
    unlisted (ns ++ [n]) < unlisted ns := by
  refine countP_lt_countP (fun i _ => by simp_all) (List.mem_range.mpr n.index_lt) (by simp) ?_
  simp only [List.all_eq_true, bne_iff_ne, ne_eq]
  intro m hm e
  obtain ⟨i, hi⟩ := m
  obtain rfl : n = ⟨i, hi⟩ := by cases n; simp_all
  exact h hm

end NodeId

end AheadOfTime
