import AheadOfTime.Files.Tree
import AheadOfTime.Proofs.Except
import Mathlib.Tactic.SplitIfs

/-! What a file holds after a write. A write changes no directory, so a path that leads to a file
leads there afterwards as well (`locate_put`), and only those that lead to the file written show
anything new (`read?_put`). -/

namespace AheadOfTime.Files.Tree

variable {t : Tree} {p : Path} {place found : List String} {contents : String}

theorem isDirectory_put (place' : List String) :
    (t.put place contents).isDirectory place' = t.isDirectory place' := (rfl)

theorem enter_put {name : String} {place' : List String} :
    (t.put place contents).enter place' name = .ok found ↔ t.enter place' name = .ok found := by
  simp only [enter, isDirectory_put]
  -- A file decides only which of two errors it is.
  split_ifs <;> simp

theorem foldlM_enter_put {names : List String} {place' : List String} :
    names.foldlM (t.put place contents).enter place' = .ok found ↔
      names.foldlM t.enter place' = .ok found := by
  induction names generalizing place' with
  | nil => rfl
  | cons name names ih =>
    rw [List.foldlM_cons, List.foldlM_cons, Except.bind_eq_ok, Except.bind_eq_ok]
    simp only [enter_put, ih]

theorem locate_eq_ok_iff : t.locate p = .ok found ↔
    ('\x00' ∉ p.text.toList ∧ p.text ≠ "" ∧ ¬ longestPath < p.text.utf8ByteSize) ∧
      ∃ name, p.names.getLast? = some name ∧
        ¬ (name = "." || name = ".." || p.endsInSlash) ∧ ¬ longestName < name.utf8ByteSize ∧
        ∃ parent, p.names.dropLast.foldlM t.enter [] = .ok parent ∧
          t.isDirectory (parent ++ [name]) = false ∧ parent ++ [name] = found := by
  unfold locate
  cases p.names.getLast? with
  | none => split_ifs <;> simp
  | some name =>
    cases p.names.dropLast.foldlM t.enter [] with
    | error e => split_ifs <;> simp
    | ok parent =>
      dsimp only
      split_ifs <;> grind

theorem locate_put : (t.put place contents).locate p = .ok found ↔ t.locate p = .ok found := by
  simp only [locate_eq_ok_iff, foldlM_enter_put, isDirectory_put]

theorem lookup_put (place' : List String) : (t.put place contents).files.lookup place' =
    if place' = place then some contents else t.files.lookup place' := by
  rw [put, List.lookup_append, lookup_filter_ne, List.lookup_cons]
  split_ifs with h
  · simp [h]
  · simp [beq_false_of_ne h]

/-- A path that leads to the place written shows what was written, and others what they did. -/
theorem read?_put : (t.put place contents).read? p =
    if t.locate p = .ok place then some contents else t.read? p := by
  unfold read?
  cases h : t.locate p with
  | ok found =>
    rw [locate_put.mpr h]
    dsimp only
    rw [lookup_put]
    simp
  | error e =>
    cases h' : (t.put place contents).locate p with
    | ok found =>
      rw [locate_put.mp h'] at h
      cases h
    | error e => simp

end AheadOfTime.Files.Tree
