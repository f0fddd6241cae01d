import AheadOfTime.Proofs.Compilation.Boundary

/-! Symbols of compiled programs. Symbols and data are named by whoever asks for them, and all other
nodes after the types and methods that they are about. So nodes of a successful run that share a
symbol are named by request, or they are about namesakes; a method is not both compiled and linked to
(`symbols_shared`). -/

namespace AheadOfTime

/-- What is named by request goes by that name. -/
theorem World.nodeSymbol_requested {w : World} {k : Key} {b : Bool} {s : String}
    (hk : ¬ k.isMangled) (h : w.nodeSymbol b k = .ok s) : k = .externSymbol s ∨ k = .dataBlob s := by
  cases k with
  | externSymbol name =>
    simp only [nodeSymbol] at h
    split at h <;> cases h
    exact .inl rfl
  | dataBlob name =>
    simp only [nodeSymbol] at h
    split at h
    · cases h
    · split at h <;> cases h
      exact .inr rfl
  | _ => exact absurd rfl hk

namespace Key

theorem kind_ne_of_isMangled {k k' : Key} (hk : k.isMangled) (hk' : ¬ k'.isMangled) :
    k.kind ≠ k'.kind := by
  cases k' with
  | externSymbol _ | dataBlob _ => cases k <;> simp_all [isMangled, kind]
  | _ => exact absurd rfl hk'

theorem SameMethod.link {k k' : Key} (h : k.SameMethod k') :
    k.link = some k' ∨ k'.link = some k := by
  obtain ⟨m, ⟨rfl, rfl⟩ | ⟨rfl, rfl⟩⟩ := h
  · exact .inl rfl
  · exact .inr rfl

end Key

namespace Program

variable {β : Type} {p : Program β} {s : Store β} {n m : NodeId} {x y : Node}

/-- Two nodes of different keys and one symbol are of different kinds, one of them named by request,
or they are named after namesakes. -/
theorem Bound.symbol_shared (h : p.Bound s) (hn : s.node? n = some x) (hm : s.node? m = some y)
    (hname : x.name = y.name) (hkey : x.key ≠ y.key) :
    ((¬ x.key.isMangled ∨ ¬ y.key.isMangled) ∧ x.key.kind ≠ y.key.kind) ∨
      (x.key.isMangled ∧ y.key.isMangled ∧ p.world.Namesakes x.key.entity y.key.entity) := by
  have hx := h.sound.named n x hn
  have hy := h.sound.named m y hm
  rw [← hname] at hy
  by_cases hkx : x.key.isMangled <;> by_cases hky : y.key.isMangled
  · have hlookup (n : NodeId) (x : Node) (hn : s.node? n = some x) : (s.lookup x.key).isSome :=
      Option.isSome_iff_exists.mpr ⟨n, (h.sound.lookup_iff _ n).mpr ⟨x, hn, rfl⟩⟩
    have hxs := hlookup n x hn
    have hys := hlookup m y hm
    rcases World.eq_or_namesakes_of_symbol hkx hky hx hy with heq | hsame | hnamesakes
    · exact absurd heq hkey
    · rcases hsame.link with hlink | hlink
      · exact absurd ⟨hxs, hys⟩ (h.apart hlink)
      · exact absurd ⟨hys, hxs⟩ (h.apart hlink)
    · exact .inr ⟨hkx, hky, hnamesakes⟩
  · exact .inl ⟨.inr hky, Key.kind_ne_of_isMangled hkx hky⟩
  · exact .inl ⟨.inl hkx, (Key.kind_ne_of_isMangled hky hkx).symm⟩
  · refine .inl ⟨.inl hkx, ?_⟩
    rcases World.nodeSymbol_requested hkx hx with hx | hx <;>
      rcases World.nodeSymbol_requested hky hy with hy | hy <;> rw [hx, hy] at hkey ⊢
    · exact absurd rfl hkey
    · simp [Key.kind]
    · simp [Key.kind]
    · exact absurd rfl hkey

end Program

namespace Compilation

variable {β : Type}

/-- An application with two overloads of one method, and with a symbol and data of one name. -/
def overloaded : Compilation CallLog where
  program := ⟨.populated [.module ⟨"App", ⟨1, 0, 0, 0⟩, [], "", 0, []⟩, .type ⟨0⟩ "" "Main" 0 none,
      .method ⟨0⟩ "Run" 0 false, .method ⟨0⟩ "Run" 0 false],
    .wholeProgram, Script.backend [(⟨0⟩, .compile [⟨.methodEntrypoint ⟨1⟩, "call"⟩,
      ⟨.externSymbol "table", "address"⟩, ⟨.dataBlob "table" [1], "data"⟩])],
    ⟨.blended, false, []⟩⟩
  tracking := .none
  roots := [.entryPoint ⟨0⟩]
  metadataLog := none
  dependencyLog := none
  parallel := false

end Compilation

end AheadOfTime
