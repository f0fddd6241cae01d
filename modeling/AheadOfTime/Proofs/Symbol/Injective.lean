import AheadOfTime.Proofs.Symbol.Escaped

/-! Symbols are injective. The text of a type can be told from what follows it, as long as that is
not its own list of arguments; so the nested text of any type or method determines it, and texts of
different sorts differ where the one goes on and the other ends. -/

namespace AheadOfTime.Symbol

/-- Nothing follows a type, or a mark that may come after one. -/
def FollowsType (x : List Char) : Prop :=
  x = [] ∨ ∃ m ∈ [nameMark, separatorMark, closeMark, descriptorMark], m <+: x

theorem FollowsType.delimited {x : List Char} (h : FollowsType x) : Delimited x := by
  rcases h with rfl | ⟨m, hm, hx⟩
  · exact .inl rfl
  · refine .inr ⟨m, ?_, hx⟩
    have hsub : ∀ m ∈ [nameMark, separatorMark, closeMark, descriptorMark], m ∈ marks := by decide
    exact hsub m hm

theorem delimited_append {m : List Char} (hm : m ∈ marks) (x : List Char) : Delimited (m ++ x) :=
  .inr ⟨m, hm, List.prefix_append m x⟩

theorem followsType_nil : FollowsType [] := .inl rfl

theorem followsType_name (x : List Char) : FollowsType (nameMark ++ x) :=
  .inr ⟨nameMark, by decide, List.prefix_append _ x⟩

theorem followsType_descriptor : FollowsType descriptorMark :=
  .inr ⟨descriptorMark, by decide, List.prefix_refl _⟩

/-- Arguments go on after a separator or close. -/
theorem followsType_rest (ts : List TypeIdentity) (x : List Char) :
    FollowsType (restBody ts ++ (closeMark ++ x)) := by
  cases ts with
  | nil => exact .inr ⟨closeMark, by decide, List.prefix_append _ x⟩
  | cons t ts =>
    refine .inr ⟨separatorMark, by decide, ?_⟩
    rw [restBody, List.append_assoc, List.append_assoc]
    exact List.prefix_append _ _

/-- What follows a type does not begin a list of arguments. -/
theorem FollowsType.ne_open {x : List Char} (h : FollowsType x) (y : List Char) :
    openMark ++ y ≠ x := by
  rintro rfl
  rcases h with h | ⟨m, hm, z, h⟩
  · cases h
  · simp only [List.mem_cons, List.not_mem_nil, or_false] at hm
    rcases hm with rfl | rfl | rfl | rfl <;>
      simp [openMark, nameMark, separatorMark, closeMark, descriptorMark] at h

theorem delimited_args {x : List Char} (h : FollowsType x) (ts : List TypeIdentity) :
    Delimited (argsBody ts ++ x) := by
  cases ts with
  | nil => exact h.delimited
  | cons t ts =>
    rw [argsBody, List.append_assoc, List.append_assoc, List.append_assoc]
    exact delimited_append (by decide) _

/-- The text of a namespace, which is left out for the global one. -/
def scopeBody (scope : String) : List Char :=
  if scope = "" then [] else scopeMark ++ escaped scope.toList

theorem delimited_scope (scope : String) (x : List Char) :
    Delimited (scopeBody scope ++ (nameMark ++ x)) := by
  unfold scopeBody
  split
  · exact delimited_append (by decide) x
  · rw [List.append_assoc]
    exact delimited_append (by decide) _

theorem scopeBody_append_inj {s t : String} {x y : List Char}
    (h : scopeBody s ++ (nameMark ++ x) = scopeBody t ++ (nameMark ++ y)) : s = t ∧ x = y := by
  unfold scopeBody at h
  split at h <;> split at h <;> rename_i hs ht
  · exact ⟨hs.trans ht.symm, List.append_cancel_left h⟩
  · simp [nameMark, scopeMark] at h
  · simp [nameMark, scopeMark] at h
  · rw [List.append_assoc, List.append_assoc] at h
    obtain ⟨hst, hxy⟩ := escaped_append_inj (delimited_append (by decide) x)
      (delimited_append (by decide) y) (List.append_cancel_left h)
    exact ⟨String.toList_inj.mp hst, List.append_cancel_left hxy⟩

theorem typeBody_mk (assembly scope name : String) (args : List TypeIdentity) (x : List Char) :
    typeBody (.mk assembly scope name args) ++ x =
      escaped assembly.toList ++ (scopeBody scope ++ (nameMark ++
        (escaped name.toList ++ (argsBody args ++ x)))) := by
  simp [typeBody, scopeBody]

mutual

theorem typeBody_append_inj : ∀ (t u : TypeIdentity) {x y : List Char}, FollowsType x →
    FollowsType y → typeBody t ++ x = typeBody u ++ y → t = u ∧ x = y
  | .mk assembly scope name args, .mk assembly' scope' name' args', x, y, hx, hy, h => by
    rw [typeBody_mk, typeBody_mk] at h
    obtain ⟨hassembly, h⟩ :=
      escaped_append_inj (delimited_scope _ _) (delimited_scope _ _) h
    obtain ⟨hscope, h⟩ := scopeBody_append_inj h
    obtain ⟨hname, h⟩ := escaped_append_inj (delimited_args hx _) (delimited_args hy _) h
    obtain ⟨hargs, hxy⟩ := argsBody_append_inj args args' hx hy h
    rw [String.toList_inj.mp hassembly, hscope, String.toList_inj.mp hname, hargs]
    exact ⟨rfl, hxy⟩

theorem argsBody_append_inj : ∀ (ts us : List TypeIdentity) {x y : List Char}, FollowsType x →
    FollowsType y → argsBody ts ++ x = argsBody us ++ y → ts = us ∧ x = y
  | [], [], x, y, hx, hy, h => ⟨rfl, h⟩
  | [], u :: us, x, y, hx, hy, h => by
    simp only [argsBody, List.append_assoc, List.nil_append] at h
    exact (hx.ne_open _ h.symm).elim
  | t :: ts, [], x, y, hx, hy, h => by
    simp only [argsBody, List.append_assoc, List.nil_append] at h
    exact (hy.ne_open _ h).elim
  | t :: ts, u :: us, x, y, hx, hy, h => by
    simp only [argsBody, List.append_assoc] at h
    obtain ⟨rfl, hrest⟩ := typeBody_append_inj t u (followsType_rest ts x) (followsType_rest us y)
      (List.append_cancel_left h)
    obtain ⟨rfl, hxy⟩ := restBody_append_inj ts us hrest
    exact ⟨rfl, hxy⟩

theorem restBody_append_inj : ∀ (ts us : List TypeIdentity) {x y : List Char},
    restBody ts ++ (closeMark ++ x) = restBody us ++ (closeMark ++ y) → ts = us ∧ x = y
  | [], [], x, y, h => ⟨rfl, List.append_cancel_left h⟩
  | [], u :: us, x, y, h => by
    simp [restBody, closeMark, separatorMark] at h
  | t :: ts, [], x, y, h => by
    simp [restBody, closeMark, separatorMark] at h
  | t :: ts, u :: us, x, y, h => by
    simp only [restBody, List.append_assoc] at h
    obtain ⟨rfl, hrest⟩ := typeBody_append_inj t u (followsType_rest ts x) (followsType_rest us y)
      (List.append_cancel_left h)
    obtain ⟨rfl, hxy⟩ := restBody_append_inj ts us hrest
    exact ⟨rfl, hxy⟩

end

theorem methodBody_eq (m : MethodIdentity) :
    methodBody m = typeBody m.owner ++ (nameMark ++ (escaped m.name.toList ++ argsBody m.args)) := by
  simp [methodBody]

theorem methodBody_inj {m n : MethodIdentity} (h : methodBody m = methodBody n) : m = n := by
  rw [methodBody_eq, methodBody_eq] at h
  obtain ⟨howner, h⟩ := typeBody_append_inj _ _ (followsType_name _) (followsType_name _) h
  have hdelimited (ts : List TypeIdentity) : Delimited (argsBody ts) := by
    simpa using delimited_args followsType_nil ts
  obtain ⟨hname, h⟩ :=
    escaped_append_inj (hdelimited _) (hdelimited _) (List.append_cancel_left h)
  obtain ⟨hargs, -⟩ := argsBody_append_inj m.args n.args followsType_nil followsType_nil
    (by simpa using h)
  cases m
  cases n
  simp_all [String.toList_inj]

theorem ofType_inj {t u : TypeIdentity} : ofType t = ofType u ↔ t = u := by
  refine ⟨fun h => ?_, fun h => h ▸ rfl⟩
  have h : typeBody t ++ [] = typeBody u ++ [] := by
    simpa [ofType, ← String.toList_inj] using h
  exact (typeBody_append_inj t u followsType_nil followsType_nil h).1

theorem ofMethod_inj {m n : MethodIdentity} : ofMethod m = ofMethod n ↔ m = n := by
  refine ⟨fun h => methodBody_inj ?_, fun h => h ▸ rfl⟩
  simpa [ofMethod, ← String.toList_inj] using h

/-- After its owner a method goes on and a type ends. -/
theorem ofMethod_ne_ofType (m : MethodIdentity) (t : TypeIdentity) : ofMethod m ≠ ofType t := by
  intro h
  have h : typeBody m.owner ++ (nameMark ++ (escaped m.name.toList ++ argsBody m.args)) =
      typeBody t ++ [] := by
    simpa [ofMethod, ofType, ← String.toList_inj, methodBody_eq] using h
  have hend := (typeBody_append_inj _ _ (followsType_name _) followsType_nil h).2
  simp [nameMark] at hend

theorem ofMethod_ne_ofDescriptor (m : MethodIdentity) (t : TypeIdentity) :
    ofMethod m ≠ ofDescriptor t := by
  intro h
  have h : typeBody m.owner ++ (nameMark ++ (escaped m.name.toList ++ argsBody m.args)) =
      typeBody t ++ descriptorMark := by
    simpa [ofMethod, ofDescriptor, ofType, ← String.toList_inj, methodBody_eq,
      String.append_assoc] using h
  have hend := (typeBody_append_inj _ _ (followsType_name _) followsType_descriptor h).2
  simp [nameMark, descriptorMark] at hend

theorem ofType_ne_ofDescriptor (t u : TypeIdentity) : ofType t ≠ ofDescriptor u := by
  intro h
  have h : typeBody t ++ [] = typeBody u ++ descriptorMark := by
    simpa [ofDescriptor, ofType, ← String.toList_inj, String.append_assoc] using h
  have hend := (typeBody_append_inj _ _ followsType_nil followsType_descriptor h).2
  simp [descriptorMark] at hend

end AheadOfTime.Symbol
