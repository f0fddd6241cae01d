import AheadOfTime.Proofs.Compilation.Closure
import AheadOfTime.Proofs.Node.Repeated
import AheadOfTime.Proofs.Symbol.Accepted

/-! The roots of a library. What is selected by looking at the entries of the world alone can always
be emitted or linked to (`World.WellFormed.surface_granted`), so the roots of a library come out
whole unless the arena is full. A reference adds a node just when its key has none, and no two
references of a surface are about the same, so it is known beforehand how many handles this takes
(`Program.resolveRoots_resolves`). -/

namespace AheadOfTime

section Selection

variable {α : Type}

/-- The positions of the entries that are looked for. -/
def positions (p : α → Bool) (xs : List α) : List ℕ := (xs.zipIdx.filter (p ·.1)).map (·.2)

theorem mem_positions {p : α → Bool} {xs : List α} {i : ℕ} :
    i ∈ positions p xs ↔ ∃ x, xs[i]? = some x ∧ p x = true := by
  simp [positions, List.mem_zipIdx_iff_getElem?]

theorem positions_ordered (p : α → Bool) (xs : List α) : (positions p xs).Pairwise (· < ·) := by
  have hordered : (xs.zipIdx.map (·.2)).Pairwise (· < ·) := by
    rw [List.zipIdx_map_snd]
    exact List.pairwise_lt_range'
  exact List.pairwise_map.mpr ((List.pairwise_map.mp hordered).filter _)

end Selection

namespace World

/-- A type that a module defines and that is neither generic nor an instantiation. -/
def IsPlainType (w : World) (m : ModuleId) (t : TypeId) : Prop :=
  ∃ info, w.typeInfo t = .ok info ∧ info.module = m ∧ info.parameters = 0 ∧
    info.instantiation = none

/-- A method of a type that is neither generic nor an instantiation. -/
def IsPlainMethod (w : World) (t : TypeId) (m : MethodId) : Prop :=
  ∃ info, w.methodInfo m = .ok info ∧ info.owner = t ∧ info.parameters = 0 ∧
    info.instantiation = none

/-- The plain types of a module, each with its plain methods, in the order of handles. -/
structure IsSurface (w : World) (m : ModuleId) (surface : List (TypeId × List MethodId)) :
    Prop where
  types : ∀ t, t ∈ surface.map (·.1) ↔ w.IsPlainType m t
  types_ordered : (surface.map (·.1)).Pairwise (·.index < ·.index)
  methods : ∀ entry ∈ surface, ∀ x, x ∈ entry.2 ↔ w.IsPlainMethod entry.1 x
  methods_ordered : ∀ entry ∈ surface, entry.2.Pairwise (·.index < ·.index)

/-- What is rooted of a surface: each type, followed by its methods. -/
def surfaceReferences (surface : List (TypeId × List MethodId)) : List Reference :=
  surface.flatMap fun entry =>
    ⟨.typeHandle entry.1, "library type"⟩ ::
      entry.2.map (⟨.methodEntrypoint ·, "library method"⟩)

variable {w : World} {m : ModuleId} {t : TypeId}

theorem typesIn_eq (w : World) (m : ModuleId) : w.typesIn m =
    (positions (fun info => decide (info.module = m)) w.types.toList).map TypeId.mk := by
  rw [typesIn, positions, List.map_map]
  rfl

theorem methodsOf_eq (w : World) (t : TypeId) : w.methodsOf t =
    (positions (fun info => decide (info.owner = t)) w.methods.toList).map MethodId.mk := by
  rw [methodsOf, positions, List.map_map]
  rfl

theorem mem_typesIn : t ∈ w.typesIn m ↔ ∃ info, w.typeInfo t = .ok info ∧ info.module = m := by
  obtain ⟨i⟩ := t
  simp [typesIn_eq, mem_positions, typeInfo_eq_ok]

theorem mem_methodsOf {x : MethodId} :
    x ∈ w.methodsOf t ↔ ∃ info, w.methodInfo x = .ok info ∧ info.owner = t := by
  obtain ⟨i⟩ := x
  simp [methodsOf_eq, mem_positions, methodInfo_eq_ok]

theorem mem_plainTypesIn : t ∈ w.plainTypesIn m ↔ w.IsPlainType m t := by
  rw [plainTypesIn, List.mem_filter, mem_typesIn]
  cases hinfo : w.typeInfo t with
  | error e => simp [IsPlainType, hinfo]
  | ok info => simp [IsPlainType, hinfo, TypeInfo.isOpen]

theorem mem_plainMethodsOf {x : MethodId} : x ∈ w.plainMethodsOf t ↔ w.IsPlainMethod t x := by
  rw [plainMethodsOf, List.mem_filter, mem_methodsOf]
  cases hinfo : w.methodInfo x with
  | error e => simp [IsPlainMethod, hinfo]
  | ok info => simp [IsPlainMethod, hinfo]

theorem plainTypesIn_ordered (w : World) (m : ModuleId) :
    (w.plainTypesIn m).Pairwise (·.index < ·.index) := by
  rw [plainTypesIn, typesIn_eq]
  exact .filter _ (List.pairwise_map.mpr (positions_ordered _ _))

theorem plainMethodsOf_ordered (w : World) (t : TypeId) :
    (w.plainMethodsOf t).Pairwise (·.index < ·.index) := by
  rw [plainMethodsOf, methodsOf_eq]
  exact .filter _ (List.pairwise_map.mpr (positions_ordered _ _))

/-- The references of a library are those of the surface of its module. -/
theorem exists_surface (w : World) (m : ModuleId) :
    ∃ surface, w.IsSurface m surface ∧ w.libraryReferences m = surfaceReferences surface := by
  refine ⟨(w.plainTypesIn m).map fun t => (t, w.plainMethodsOf t), ?_, ?_⟩
  · have htypes : ((w.plainTypesIn m).map fun t => (t, w.plainMethodsOf t)).map (·.1) =
        w.plainTypesIn m := by simp [Function.comp_def]
    refine ⟨fun t => ?_, ?_, List.forall_mem_map.mpr fun t _ x => mem_plainMethodsOf,
      List.forall_mem_map.mpr fun t _ => w.plainMethodsOf_ordered t⟩ <;> rw [htypes]
    · exact mem_plainTypesIn
    · exact w.plainTypesIn_ordered m
  · rw [libraryReferences, surfaceReferences, List.flatMap_map]

variable {surface : List (TypeId × List MethodId)}

theorem mem_surfaceReferences {r : Reference} : r ∈ surfaceReferences surface ↔
    ∃ entry ∈ surface, r = ⟨.typeHandle entry.1, "library type"⟩ ∨
      ∃ x ∈ entry.2, r = ⟨.methodEntrypoint x, "library method"⟩ := by
  simp [surfaceReferences, eq_comm]

/-- No two references of a surface are about the same. -/
theorem IsSurface.nodup_entities (h : w.IsSurface m surface) :
    ((surfaceReferences surface).map (·.target.entity)).Nodup := by
  have hentities : (surfaceReferences surface).map (·.target.entity) =
      surface.flatMap fun entry => .type entry.1 :: entry.2.map .method := by
    simp [surfaceReferences, List.map_flatMap, Function.comp_def, Request.entity]
  rw [hentities, List.nodup_flatMap]
  have hindex {i j : ℕ} : i < j → i ≠ j := Nat.ne_of_lt
  refine ⟨fun entry hentry => List.nodup_cons.mpr ⟨by simp, ?_⟩, ?_⟩
  · have hmethods : entry.2.Nodup :=
      (h.methods_ordered entry hentry).imp fun hlt heq => hindex hlt (congrArg _ heq)
    exact hmethods.map fun _ _ heq => Entity.method.inj heq
  · refine (List.pairwise_map.mp h.types_ordered).imp_of_mem fun {a b} ha hb hlt e hea heb => ?_
    have hne : a.1 ≠ b.1 := fun heq => hindex hlt (congrArg _ heq)
    rcases List.mem_cons.mp hea with rfl | hea
    · rcases List.mem_cons.mp heb with heq | heb
      · exact hne (Entity.type.inj heq)
      · simp at heb
    · obtain ⟨x, hx, rfl⟩ := List.mem_map.mp hea
      have hxb : x ∈ b.2 := by simpa using heb
      obtain ⟨info, hinfo, howner, -⟩ := (h.methods a ha x).mp hx
      obtain ⟨info', hinfo', howner', -⟩ := (h.methods b hb x).mp hxb
      cases hinfo.symm.trans hinfo'
      exact hne (howner.symm.trans howner')

namespace WellFormed

variable (hw : w.WellFormed) {u : CompilationUnit}
include hw

theorem plainType_granted (ht : w.IsPlainType m t) :
    ∃ name, w.nodeSymbol false (u.bind w (.typeHandle t)) = .ok name := by
  obtain ⟨info, hinfo, -, hparameters, -⟩ := ht
  cases hsymbol : w.nodeSymbol false (u.bind w (.typeHandle t)) with
  | ok name => exact ⟨name, rfl⟩
  | error fault =>
    have ht : w.Has (.type t) := exists_typeInfo.mp ⟨info, hinfo⟩
    obtain ⟨-, info', hinfo', hopen⟩ := hw.typeHandle_fault ht hsymbol
    cases hinfo.symm.trans hinfo'
    simp [TypeInfo.isOpen, hparameters] at hopen

/-- Selecting a method does not look at the parameters of its owner, which was selected before. -/
theorem plainMethod_granted {x : MethodId} (ht : w.IsPlainType m t) (hx : w.IsPlainMethod t x) :
    ∃ name, w.nodeSymbol false (u.bind w (.methodEntrypoint x)) = .ok name := by
  obtain ⟨owner, howner, -, hclosed, -⟩ := ht
  obtain ⟨info, hinfo, rfl, hparameters, -⟩ := hx
  cases hsymbol : w.nodeSymbol false (u.bind w (.methodEntrypoint x)) with
  | ok name => exact ⟨name, rfl⟩
  | error fault =>
    have hx : w.Has (.method x) := exists_methodInfo.mp ⟨info, hinfo⟩
    obtain ⟨-, hopen⟩ := hw.methodEntrypoint_fault hx hsymbol
    have hopen := (isOpenMethod_eq hinfo howner).symm.trans hopen
    simp [TypeInfo.isOpen, hparameters, hclosed] at hopen

/-- No reference of a surface brings contents, and each can have a node, whichever unit it is bound
in. -/
theorem surface_granted (h : w.IsSurface m surface) {r : Reference}
    (hr : r ∈ surfaceReferences surface) :
    r.target.data = none ∧ ∃ name, w.nodeSymbol false (u.bind w r.target) = .ok name := by
  obtain ⟨entry, hentry, hr⟩ := mem_surfaceReferences.mp hr
  have htype : w.IsPlainType m entry.1 := (h.types _).mp (List.mem_map_of_mem hentry)
  rcases hr with rfl | ⟨x, hx, rfl⟩
  · exact ⟨rfl, hw.plainType_granted htype⟩
  · exact ⟨rfl, hw.plainMethod_granted htype ((h.methods entry hentry x).mp hx)⟩

end WellFormed

end World

namespace Program

variable {β : Type} {p : Program β} {s : Store β} {rs : List Reference} {n : NodeId}

/-- How many references are to keys that have no node. -/
def missing (p : Program β) (rs : List Reference) (s : Store β) : ℕ :=
  rs.countP fun r => (s.lookup (p.key r.target)).isNone

/-- References to different keys, of which none brings contents and each may have a node. -/
structure Rootable (p : Program β) (rs : List Reference) : Prop where
  data : ∀ r ∈ rs, r.target.data = none
  granted : ∀ r ∈ rs, ∃ name, p.world.nodeSymbol false (p.key r.target) = .ok name
  distinct : (rs.map (p.key ·.target)).Nodup

theorem Rootable.tail {r : Reference} (h : p.Rootable (r :: rs)) : p.Rootable rs :=
  ⟨fun r' hr' => h.data r' (List.mem_cons_of_mem r hr'),
    fun r' hr' => h.granted r' (List.mem_cons_of_mem r hr'),
    (List.nodup_cons.mp h.distinct).2⟩

theorem rootable_surface (hw : p.world.WellFormed) {m : ModuleId}
    {surface : List (TypeId × List MethodId)} (h : p.world.IsSurface m surface) :
    p.Rootable (World.surfaceReferences surface) where
  data _ hr := (hw.surface_granted (u := p.unit) h hr).1
  granted _ hr := (hw.surface_granted h hr).2
  distinct := by
    have hentities := h.nodup_entities
    simp only [← p.unit.entity_bind p.world] at hentities
    exact .of_map Key.entity (by rwa [List.map_map])

theorem missing_push {r : Reference} {node : Node} (h : p.Rootable (r :: rs))
    (hkey : node.key = p.key r.target) : p.missing rs (s.push n node) = p.missing rs s := by
  refine List.countP_congr fun r' hr' => ?_
  have hne : p.key r'.target ≠ node.key := fun heq =>
    (List.nodup_cons.mp h.distinct).1 (List.mem_map.mpr ⟨r', hr', heq.trans hkey⟩)
  rw [Store.lookup_push, if_neg hne]

/-- How resolving ends: with a node for each reference, if there is room for the missing ones, and
otherwise at one of them, with no handle left. -/
inductive Resolves (p : Program β) (rs : List Reference) (s : Store β) (found : Gathered β) :
    Prop where
  | whole (hroom : s.size + p.missing rs s ≤ 0x100000000) (herror : found.error = none)
    (hsize : found.store.size = s.size + p.missing rs s)
  | full {r : Reference} (hshort : 0x100000000 < s.size + p.missing rs s) (hr : r ∈ rs)
    (herror : found.error = some (.unresolved ((p.key r.target).describe p.world) none .arenaFull))
    (hfull : found.store.size = 0x100000000)

/-- The first reference takes a handle or not; either way as many are needed in all. -/
theorem Resolves.cons {r : Reference} {s₁ : Store β}
    (hrun : (p.resolve none r.target).run s = (.ok n, s₁))
    (hneeded : s₁.size + p.missing rs s₁ = s.size + p.missing (r :: rs) s)
    (h : p.Resolves rs s₁ (p.resolveRoots rs s₁)) :
    p.Resolves (r :: rs) s (p.resolveRoots (r :: rs) s) := by
  simp only [resolveRoots, hrun]
  cases h with
  | whole hroom herror hsize =>
    rw [hneeded] at hroom hsize
    exact .whole hroom herror hsize
  | full hshort hr herror hfull =>
    rw [hneeded] at hshort
    exact .full hshort (List.mem_cons_of_mem r hr) herror hfull

theorem resolveRoots_resolves (h : p.Rootable rs) (hs : s.size ≤ 0x100000000) :
    p.Resolves rs s (p.resolveRoots rs s) := by
  induction rs generalizing s with
  | nil => exact .whole hs rfl rfl
  | cons r rs ih =>
    obtain ⟨name, hname⟩ := h.granted r List.mem_cons_self
    have hresolve : p.resolve none r.target = p.obtain (p.key r.target) none none := by
      rw [resolve, h.data r List.mem_cons_self, key]
    cases hk : s.lookup (p.key r.target) with
    | some n =>
      have hrun : (p.resolve none r.target).run s = (.ok n, s) := by
        rw [hresolve, obtain_existing hk, if_pos (by rfl)]
      exact .cons hrun (by simp [missing, hk]) (ih h.tail hs)
    | none =>
      have hmissing : p.missing (r :: rs) s = p.missing rs s + 1 := by simp [missing, hk]
      by_cases hroom : s.size < 0x100000000
      · have hrun : (p.obtain (p.key r.target) none none).run s = _ :=
          obtain_missing hk hname hroom none
        have hsize (n : NodeId) (node : Node) : (s.push n node).size = s.size + 1 :=
          Array.size_push _
        refine .cons (hresolve ▸ hrun) ?_ (ih h.tail (hsize _ _ ▸ hroom))
        rw [hsize, missing_push h rfl, hmissing, Nat.add_right_comm, Nat.add_assoc]
      · have hrun : (p.resolve none r.target).run s =
            (.error (p.keyError s (p.key r.target) none .arenaFull), s) := by
          rw [hresolve, obtain_full hk hname hroom]
        have hfull : s.size = 0x100000000 := Nat.le_antisymm hs (Nat.le_of_not_lt hroom)
        simp only [resolveRoots, hrun]
        exact .full (by omega) List.mem_cons_self rfl hfull

/-- Different keys have different nodes. -/
theorem nodup_roots (hs : p.Sound s) (hdistinct : (rs.map (p.key ·.target)).Nodup)
    {roots : List Root} (h : List.Forall₂ (p.RootFor · · s) rs roots) :
    (roots.map (·.node)).Nodup := by
  induction h with
  | nil => exact .nil
  | @cons r root rs roots hroot hroots ih =>
    obtain ⟨hnew, hrest⟩ := List.nodup_cons.mp hdistinct
    refine List.nodup_cons.mpr ⟨fun hmem => hnew ?_, ih hrest⟩
    obtain ⟨root', hroot', heq⟩ := List.mem_map.mp hmem
    obtain ⟨r', hr', hfor⟩ := exists_mem_left hroots root' hroot'
    have hkey := hs.lookup_inj (heq ▸ hfor.serves.lookup) hroot.serves.lookup
    exact List.mem_map.mpr ⟨r', hr', hkey⟩

/-- The roots of a library, in any store that a program can get into. They are the surface of the
module, in order: a node for each type and each method that is neither generic nor an instantiation,
and nothing else. The world refuses none of them. They are gathered unless the arena has too little
room for those that have no node yet, and nothing else is reported. -/
theorem library_rooted (p : Program β) (ds : List Declaration) (hworld : p.world = .populated ds)
    (b : β) (os : List Operation) (m : ModuleId) :
    let s := p.performAll b os
    let found := p.provide (.library m) s
    ∃ surface, p.world.IsSurface m surface ∧
      let rs := World.surfaceReferences surface
      (∀ r ∈ rs, ∃ name, p.world.nodeSymbol false (p.key r.target) = .ok name) ∧
      (found.error = none ↔ s.size + p.missing rs s ≤ 0x100000000) ∧
      (found.error = none → List.Forall₂ (p.RootFor · · found.store) rs found.roots ∧
        (found.roots.map (·.node)).Nodup ∧ found.store.size = s.size + p.missing rs s) ∧
      ∀ e, found.error = some e → found.store.size = 0x100000000 ∧
        ∃ r ∈ rs, e = .unresolved ((p.key r.target).describe p.world) none .arenaFull := by
  intro s found
  have hw : p.world.WellFormed := hworld ▸ World.wellFormed_populated ds
  have hs : p.Settled s := (p.settled_empty b).steps (p.foldl_perform_steps _ os)
  obtain ⟨surface, hsurface, hreferences⟩ := p.world.exists_surface m
  have hrootable : p.Rootable (World.surfaceReferences surface) := rootable_surface hw hsurface
  have hfound : found = p.resolveRoots (World.surfaceReferences surface) s := hreferences ▸ rfl
  have hresolves := resolveRoots_resolves hrootable hs.size_le
  obtain ⟨hcreates, hroots⟩ := resolveRoots_creates (p := p) (World.surfaceReferences surface) s
  rw [← hfound] at hresolves hcreates hroots
  have hsound := (hs.steps hcreates.steps).sound
  refine ⟨surface, hsurface, hrootable.granted, ?_, fun herror => ?_, fun e he => ?_⟩
  · cases hresolves with
    | whole hroom herror hsize => exact iff_of_true herror hroom
    | full hshort hr herror hfull => exact iff_of_false (by simp [herror]) (Nat.not_le.mpr hshort)
  · cases hresolves with
    | whole hroom _ hsize =>
      exact ⟨hroots herror, nodup_roots hsound hrootable.distinct (hroots herror), hsize⟩
    | full hshort hr herror' hfull => cases herror.symm.trans herror'
  · cases hresolves with
    | whole hroom herror hsize => cases he.symm.trans herror
    | full hshort hr herror hfull =>
      cases he.symm.trans herror
      exact ⟨hfull, _, hr, rfl⟩

/-- The generic method and its instantiation are left out. The start has a node already, and it is
rooted no matter that a node links to it as well. -/
theorem library_rooted_derivedAcross :
    let p := Compilation.applicationAcross.program
    let s := p.performAll .empty [.resolve (.methodEntrypoint ⟨4⟩), .obtain (.externMethod ⟨4⟩)]
    let found := p.provide (.library ⟨0⟩) s
    p.world = .populated Compilation.derivedAcross ∧ found.error = none ∧
      found.roots = [⟨.small 2, "library type"⟩, ⟨.small 3, "library method"⟩,
        ⟨.small 0, "library method"⟩] ∧
      ∃ surface, p.world.IsSurface ⟨0⟩ surface ∧
        List.Forall₂ (p.RootFor · · found.store) (World.surfaceReferences surface) found.roots := by
  intro p s found
  have herror : (Compilation.applicationAcross.program.provide (.library ⟨0⟩)
      (Compilation.applicationAcross.program.performAll .empty
        [.resolve (.methodEntrypoint ⟨4⟩), .obtain (.externMethod ⟨4⟩)])).error = none := by cbv
  have hroots : (Compilation.applicationAcross.program.provide (.library ⟨0⟩)
      (Compilation.applicationAcross.program.performAll .empty
        [.resolve (.methodEntrypoint ⟨4⟩), .obtain (.externMethod ⟨4⟩)])).roots =
      [⟨.small 2, "library type"⟩, ⟨.small 3, "library method"⟩, ⟨.small 0, "library method"⟩] := by
    cbv
  obtain ⟨surface, hsurface, -, -, hrooted, -⟩ := library_rooted p Compilation.derivedAcross rfl
    .empty [.resolve (.methodEntrypoint ⟨4⟩), .obtain (.externMethod ⟨4⟩)] ⟨0⟩
  exact ⟨rfl, herror, hroots, surface, hsurface, (hrooted herror).1⟩

end Program

end AheadOfTime
