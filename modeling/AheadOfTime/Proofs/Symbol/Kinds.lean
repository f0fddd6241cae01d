import AheadOfTime.Node.Symbol
import AheadOfTime.Proofs.Symbol.Identity
import AheadOfTime.Proofs.World.Interned
import Mathlib

/-! Symbols of nodes. Each kind of symbol has a lead of its own or, after the common lead, a form of
its own; so a symbol tells its kind and what it names. Where modules, type definitions and method
definitions have names of their own, identities tell entities apart as well, since instantiations
are interned. Then nodes that are named after types and methods never share a symbol, except for a
method as it is compiled here and as it is bound elsewhere (`nodeSymbol_eq_iff`). -/

namespace AheadOfTime

namespace Symbol

/-- The leads of all symbols. -/
def leads : List String := [lead, importLead, methodDictionaryLead, typeDictionaryLead, virtualUseLead]

theorem leads_prefix_free : ∀ a ∈ leads, ∀ b ∈ leads, a.toList <+: b.toList → a = b := by decide

theorem append_ne {a b : String} (ha : a ∈ leads) (hb : b ∈ leads) (hab : a ≠ b) (x y : String) :
    a ++ x ≠ b ++ y := by
  intro h
  have h : a.toList ++ x.toList = b.toList ++ y.toList := by
    rw [← String.toList_append, h, String.toList_append]
  rcases List.prefix_or_prefix_of_prefix (h ▸ List.prefix_append a.toList x.toList)
    (List.prefix_append b.toList y.toList) with hp | hp
  · exact hab (leads_prefix_free a ha b hb hp)
  · exact hab (leads_prefix_free b hb a ha hp).symm

/-- What a symbol names in the unit that defines it. -/
inductive Referent where
  | method (m : MethodIdentity)
  | descriptor (t : TypeIdentity)
  | virtualUse (m : MethodIdentity)
  | methodDictionary (m : MethodIdentity)
  | typeDictionary (t : TypeIdentity)

namespace Referent

def lead : Referent → String
  | .method _ | .descriptor _ => Symbol.lead
  | .virtualUse _ => virtualUseLead
  | .methodDictionary _ => methodDictionaryLead
  | .typeDictionary _ => typeDictionaryLead

def symbol : Referent → String
  | .method m => ofMethod m
  | .descriptor t => ofDescriptor t
  | .virtualUse m => ofVirtualUse m
  | .methodDictionary m => ofMethodDictionary m
  | .typeDictionary t => ofTypeDictionary t

theorem lead_mem (r : Referent) : r.lead ∈ leads := by
  cases r <;> simp [lead, leads]

theorem symbol_eq (r : Referent) : ∃ rest, r.symbol = r.lead ++ rest := by
  cases r with
  | method m => exact ⟨_, rfl⟩
  | descriptor t => exact ⟨_, String.append_assoc⟩
  | virtualUse m => exact ⟨_, rfl⟩
  | methodDictionary m => exact ⟨_, rfl⟩
  | typeDictionary t => exact ⟨_, rfl⟩

theorem symbol_ne {r r' : Referent} (h : r.lead ≠ r'.lead) : r.symbol ≠ r'.symbol := by
  obtain ⟨x, hx⟩ := r.symbol_eq
  obtain ⟨y, hy⟩ := r'.symbol_eq
  rw [hx, hy]
  exact append_ne r.lead_mem r'.lead_mem h x y

theorem symbol_inj {r r' : Referent} (h : r.symbol = r'.symbol) : r = r' := by
  have hlead : r.lead = r'.lead := not_not.mp fun hne => symbol_ne hne h
  cases r <;> cases r'
  case method.method => rw [ofMethod_inj.mp h]
  case method.descriptor => exact absurd h (ofMethod_ne_ofDescriptor _ _)
  case descriptor.method => exact absurd h.symm (ofMethod_ne_ofDescriptor _ _)
  case descriptor.descriptor => rw [ofType_inj.mp (String.append_left_inj _ |>.mp h)]
  case virtualUse.virtualUse => rw [ofMethod_inj.mp (String.append_right_inj _ |>.mp h)]
  case methodDictionary.methodDictionary =>
    rw [ofMethod_inj.mp (String.append_right_inj _ |>.mp h)]
  case typeDictionary.typeDictionary => rw [ofType_inj.mp (String.append_right_inj _ |>.mp h)]
  all_goals simp [lead, Symbol.lead, virtualUseLead, methodDictionaryLead, typeDictionaryLead] at hlead

theorem lead_ne_importLead (r : Referent) : importLead ≠ r.lead := by
  cases r <;>
    simp [lead, importLead, Symbol.lead, virtualUseLead, methodDictionaryLead, typeDictionaryLead]

/-- No import cell has the symbol of what a unit defines. -/
theorem imported_ne_symbol (s : String) (r : Referent) : imported s ≠ r.symbol := by
  obtain ⟨x, hx⟩ := r.symbol_eq
  rw [hx, imported]
  exact append_ne (by simp [leads]) r.lead_mem r.lead_ne_importLead s x

end Referent

end Symbol

namespace World

variable {w : World}

/-- Modules have names of their own, type definitions among those of one module and namespace, and
method definitions among those of one type. -/
structure NamesDistinct (w : World) : Prop where
  modules : (w.assemblies.toList.map (·.identity.name)).Nodup
  types : ((w.types.toList.filter (·.instantiation.isNone)).map
    fun t => (t.module, t.scope, t.name)).Nodup
  methods : ((w.methods.toList.filter (·.instantiation.isNone)).map
    fun m => (m.owner, m.name)).Nodup

instance (w : World) : Decidable w.NamesDistinct :=
  decidable_of_iff (_ ∧ _ ∧ _) ⟨fun ⟨hm, ht, hd⟩ => ⟨hm, ht, hd⟩, fun h => ⟨h.modules, h.types, h.methods⟩⟩

theorem position_inj {α γ : Type} {l : List α} {p : α → Bool} {f : α → γ}
    (h : ((l.filter p).map f).Nodup) {i j : Nat} {x y : α} (hi : l[i]? = some x)
    (hj : l[j]? = some y) (hx : p x) (hy : p y) (hxy : f x = f y) : i = j := by
  have h : l.Pairwise fun a b => p a → p b → f a ≠ f b :=
    List.pairwise_filter.mp (List.pairwise_map.mp h)
  rw [List.pairwise_iff_getElem] at h
  obtain ⟨hil, rfl⟩ := List.getElem?_eq_some_iff.mp hi
  obtain ⟨hjl, rfl⟩ := List.getElem?_eq_some_iff.mp hj
  rcases Nat.lt_trichotomy i j with hlt | heq | hlt
  · exact absurd hxy (h i j hil hjl hlt hx hy)
  · exact heq
  · exact absurd hxy.symm (h j i hjl hil hlt hy hx)

theorem NamesDistinct.module_inj (h : w.NamesDistinct) {m n : ModuleId} {a b : Assembly}
    (hm : w.assembly m = .ok a) (hn : w.assembly n = .ok b)
    (hab : a.identity.name = b.identity.name) : m = n := by
  have hnodup : ((w.assemblies.toList.filter fun _ => true).map (·.identity.name)).Nodup := by
    simpa using h.modules
  rw [assembly_eq_ok, ← Array.getElem?_toList] at hm hn
  have := position_inj hnodup hm hn rfl rfl hab
  cases m
  cases n
  simp_all

theorem NamesDistinct.type_inj (h : w.NamesDistinct) {t u : TypeId} {x y : TypeInfo}
    (ht : w.typeInfo t = .ok x) (hu : w.typeInfo u = .ok y) (hx : x.instantiation = none)
    (hy : y.instantiation = none) (hmodule : x.module = y.module) (hscope : x.scope = y.scope)
    (hname : x.name = y.name) : t = u := by
  rw [typeInfo_eq_ok, ← Array.getElem?_toList] at ht hu
  have := position_inj h.types ht hu (by simp [hx]) (by simp [hy]) (by simp [hmodule, hscope, hname])
  cases t
  cases u
  simp_all

theorem NamesDistinct.method_inj (h : w.NamesDistinct) {m n : MethodId} {x y : MethodInfo}
    (hm : w.methodInfo m = .ok x) (hn : w.methodInfo n = .ok y) (hx : x.instantiation = none)
    (hy : y.instantiation = none) (howner : x.owner = y.owner) (hname : x.name = y.name) :
    m = n := by
  rw [methodInfo_eq_ok, ← Array.getElem?_toList] at hm hn
  have := position_inj h.methods hm hn (by simp [hx]) (by simp [hy]) (by simp [howner, hname])
  cases m
  cases n
  simp_all

theorem eq_of_forall₂ {α γ : Type} {R : α → γ → Prop} {xs ys : List α} {zs : List γ}
    (hx : List.Forall₂ R xs zs) (hy : List.Forall₂ R ys zs)
    (hunique : ∀ x ∈ xs, ∀ y z, R x z → R y z → x = y) : xs = ys := by
  induction hx generalizing ys with
  | nil => exact (List.forall₂_nil_right_iff.mp hy).symm
  | @cons x z xs zs hxz _ ih =>
    obtain ⟨y, ys, hyz, hys, rfl⟩ := List.forall₂_cons_right_iff.mp hy
    rw [hunique x List.mem_cons_self y z hxz hyz,
      ih hys fun x hx => hunique x (List.mem_cons_of_mem _ hx)]

theorem typeIdentity_ok {t : TypeId} {i : TypeIdentity} (h : w.typeIdentity t = .ok i) :
    ∃ info a args, w.typeInfo t = .ok info ∧ w.assembly info.module = .ok a ∧
      List.Forall₂ (fun b j => w.typeIdentity b = .ok j) info.args args ∧
      i = .mk a.identity.name info.scope info.name args := by
  cases hinfo : w.typeInfo t with
  | error e => rw [typeIdentity, tree_eq_error hinfo] at h; cases h
  | ok info =>
    rw [typeIdentity_eq hinfo] at h
    obtain ⟨a, ha, h⟩ := Except.bind_eq_ok.mp h
    obtain ⟨args, hargs, h⟩ := Except.bind_eq_ok.mp h
    cases h
    exact ⟨info, a, args, rfl, ha, Except.mapM_eq_ok.mp hargs, rfl⟩

theorem methodIdentity_ok {m : MethodId} {i : MethodIdentity} (h : w.methodIdentity m = .ok i) :
    ∃ info, w.methodInfo m = .ok info ∧ w.typeIdentity info.owner = .ok i.owner ∧
      info.name = i.name ∧ List.Forall₂ (fun b j => w.typeIdentity b = .ok j) info.args i.args := by
  cases hinfo : w.methodInfo m with
  | error e => rw [methodIdentity, methodTree, hinfo] at h; cases h
  | ok info =>
    rw [methodIdentity_eq hinfo] at h
    obtain ⟨owner, howner, h⟩ := Except.bind_eq_ok.mp h
    obtain ⟨args, hargs, h⟩ := Except.bind_eq_ok.mp h
    cases h
    exact ⟨info, rfl, howner, rfl, Except.mapM_eq_ok.mp hargs⟩

/-- A type has arguments just when it is an instantiation. -/
theorem WellFormed.typeArgs_eq_nil (h : w.WellFormed) {t : TypeId} {info : TypeInfo}
    (ht : w.typeInfo t = .ok info) : info.args = [] ↔ info.instantiation = none := by
  rw [TypeInfo.args]
  cases hi : info.instantiation with
  | none => simp [Instantiation.argsOf]
  | some i =>
    obtain ⟨-, d, -, hof⟩ := (h.types t info ht).instanceOf i hi
    simpa [Instantiation.argsOf] using hof.args_ne_nil

theorem WellFormed.methodArgs_eq_nil (h : w.WellFormed) {m : MethodId} {info : MethodInfo}
    (hm : w.methodInfo m = .ok info) : info.args = [] ↔ info.instantiation = none := by
  rw [MethodInfo.args]
  cases hi : info.instantiation with
  | none => simp [Instantiation.argsOf]
  | some i =>
    obtain ⟨-, d, -, hof⟩ := (h.methods m info hm).instanceOf i hi
    simpa [Instantiation.argsOf] using hof.args_ne_nil

/-- Where definitions have names of their own, a type is the only one of its identity. The
induction is on its position: arguments come before it, and what is made of one definition with the
same arguments is the same. -/
theorem NamesDistinct.typeIdentity_inj (hd : w.NamesDistinct) (hw : w.WellFormed)
    (hi : w.Interned) {t u : TypeId} {i : TypeIdentity} (ht : w.typeIdentity t = .ok i)
    (hu : w.typeIdentity u = .ok i) : t = u := by
  obtain ⟨x, a, args, hx, ha, hargs, rfl⟩ := typeIdentity_ok ht
  obtain ⟨y, b, args', hy, hb, hargs', hsame⟩ := typeIdentity_ok hu
  obtain ⟨hassembly, hscope, hname, rfl⟩ := TypeIdentity.mk.inj hsame
  have hmodule := hd.module_inj ha hb hassembly
  have hxy : x.args = y.args := by
    refine eq_of_forall₂ hargs hargs' fun c hc c' j hj hj' => ?_
    have hlt := args_lt hx c hc
    exact hd.typeIdentity_inj hw hi hj hj'
  cases hxi : x.instantiation with
  | none =>
    have hyi : y.instantiation = none := by
      rw [← hw.typeArgs_eq_nil hy, ← hxy]
      exact (hw.typeArgs_eq_nil hx).mpr hxi
    exact hd.type_inj hx hy hxi hyi hmodule hscope hname
  | some j =>
    obtain ⟨k, hyi⟩ : ∃ k, y.instantiation = some k := by
      refine Option.ne_none_iff_exists'.mp fun hnone => ?_
      rw [(hw.typeArgs_eq_nil hy).mpr hnone] at hxy
      simp [(hw.typeArgs_eq_nil hx).mp hxy] at hxi
    obtain ⟨-, d, hdj, hof⟩ := (hw.types t x hx).instanceOf j hxi
    obtain ⟨-, e, hek, hof'⟩ := (hw.types u y hy).instanceOf k hyi
    have hdefinition : j.definition = k.definition := by
      refine hd.type_inj hdj hek hof.isDefinition hof'.isDefinition ?_ ?_ ?_
      · rw [← hof.module, ← hof'.module, hmodule]
      · rw [← hof.scope, ← hof'.scope, hscope]
      · rw [← hof.name, ← hof'.name, hname]
    have hjk : j = k := by
      cases j
      cases k
      simp_all [TypeInfo.args, Instantiation.argsOf]
    have htable := (hi.types j t).mpr ⟨x, hx, hxi⟩
    rw [(hi.types j u).mpr ⟨y, hy, hjk ▸ hyi⟩] at htable
    exact (Option.some.inj htable).symm
termination_by t.index

theorem NamesDistinct.methodIdentity_inj (hd : w.NamesDistinct) (hw : w.WellFormed)
    (hi : w.Interned) {m n : MethodId} {i : MethodIdentity} (hm : w.methodIdentity m = .ok i)
    (hn : w.methodIdentity n = .ok i) : m = n := by
  obtain ⟨x, hx, howner, hname, hargs⟩ := methodIdentity_ok hm
  obtain ⟨y, hy, howner', hname', hargs'⟩ := methodIdentity_ok hn
  have howners := hd.typeIdentity_inj hw hi howner howner'
  have hnames : x.name = y.name := hname.trans hname'.symm
  have hxy : x.args = y.args :=
    eq_of_forall₂ hargs hargs' fun c _ c' j hj hj' => hd.typeIdentity_inj hw hi hj hj'
  cases hxi : x.instantiation with
  | none =>
    have hyi : y.instantiation = none := by
      rw [← hw.methodArgs_eq_nil hy, ← hxy]
      exact (hw.methodArgs_eq_nil hx).mpr hxi
    exact hd.method_inj hx hy hxi hyi howners hnames
  | some j =>
    obtain ⟨k, hyi⟩ : ∃ k, y.instantiation = some k := by
      refine Option.ne_none_iff_exists'.mp fun hnone => ?_
      rw [(hw.methodArgs_eq_nil hy).mpr hnone] at hxy
      simp [(hw.methodArgs_eq_nil hx).mp hxy] at hxi
    obtain ⟨-, d, hdj, hof⟩ := (hw.methods m x hx).instanceOf j hxi
    obtain ⟨-, e, hek, hof'⟩ := (hw.methods n y hy).instanceOf k hyi
    have hdefinition : j.definition = k.definition := by
      refine hd.method_inj hdj hek hof.isDefinition hof'.isDefinition ?_ ?_
      · rw [← hof.owner, ← hof'.owner, howners]
      · rw [← hof.name, ← hof'.name, hnames]
    have hjk : j = k := by
      cases j
      cases k
      simp_all [MethodInfo.args, Instantiation.argsOf]
    have htable := (hi.methods j m).mpr ⟨x, hx, hxi⟩
    rw [(hi.methods j n).mpr ⟨y, hy, hjk ▸ hyi⟩] at htable
    exact (Option.some.inj htable).symm

end World

namespace Key

/-- Whether nodes with this key are named after the method or type that it is about. -/
def isMangled : Key → Bool
  | .externSymbol _ | .dataBlob _ => false
  | _ => true

/-- The key that the defining unit has for what an import cell points to. -/
def pointee : Key → Option Key
  | .importedTypeDescriptor t => some (.typeDescriptor t)
  | .importedMethodDictionary m => some (.methodDictionary m)
  | .importedTypeDictionary t => some (.typeDictionary t)
  | _ => none

/-- Two keys for one method, of which one unit has at most one: where it compiles the method, and
where it binds it at link time. -/
def SameMethod (k k' : Key) : Prop :=
  ∃ m, (k = .methodEntrypoint m ∧ k' = .externMethod m) ∨
    (k = .externMethod m ∧ k' = .methodEntrypoint m)

end Key

namespace World

open AheadOfTime.Symbol (Referent)

variable {w : World}

/-- What the symbol of a node names, wherever that is defined. -/
inductive Refers (w : World) : Key → Referent → Prop
  | methodEntrypoint {m : MethodId} {i : MethodIdentity} (h : w.methodIdentity m = .ok i) :
    Refers w (.methodEntrypoint m) (.method i)
  | externMethod {m : MethodId} {i : MethodIdentity} (h : w.methodIdentity m = .ok i) :
    Refers w (.externMethod m) (.method i)
  | typeDescriptor {t : TypeId} {i : TypeIdentity} (h : w.typeIdentity t = .ok i) :
    Refers w (.typeDescriptor t) (.descriptor i)
  | importedTypeDescriptor {t : TypeId} {i : TypeIdentity} (h : w.typeIdentity t = .ok i) :
    Refers w (.importedTypeDescriptor t) (.descriptor i)
  | virtualMethodUse {m : MethodId} {i : MethodIdentity} (h : w.methodIdentity m = .ok i) :
    Refers w (.virtualMethodUse m) (.virtualUse i)
  | methodDictionary {m : MethodId} {i : MethodIdentity} (h : w.methodIdentity m = .ok i) :
    Refers w (.methodDictionary m) (.methodDictionary i)
  | importedMethodDictionary {m : MethodId} {i : MethodIdentity} (h : w.methodIdentity m = .ok i) :
    Refers w (.importedMethodDictionary m) (.methodDictionary i)
  | typeDictionary {t : TypeId} {i : TypeIdentity} (h : w.typeIdentity t = .ok i) :
    Refers w (.typeDictionary t) (.typeDictionary i)
  | importedTypeDictionary {t : TypeId} {i : TypeIdentity} (h : w.typeIdentity t = .ok i) :
    Refers w (.importedTypeDictionary t) (.typeDictionary i)

theorem checked_eq_ok {ι : Type} {check : Except KeyFault Unit} {x : Except WorldError ι}
    {f : ι → String} {s : String} (h : (do check; known (x.map f)) = .ok s) :
    ∃ i, x = .ok i ∧ s = f i := by
  obtain ⟨-, -, h⟩ := Except.bind_eq_ok.mp h
  cases x with
  | error e => cases h
  | ok i =>
    cases h
    exact ⟨i, rfl, rfl⟩

theorem checked_imported_eq_ok {ι : Type} {check : Except KeyFault Unit} {x : Except WorldError ι}
    {f : ι → String} {s : String}
    (h : (do check; return Symbol.imported (← known (x.map f))) = .ok s) :
    ∃ i, x = .ok i ∧ s = Symbol.imported (f i) := by
  obtain ⟨-, -, h⟩ := Except.bind_eq_ok.mp h
  cases x with
  | error e => cases h
  | ok i =>
    cases h
    exact ⟨i, rfl, rfl⟩

/-- The symbol of a node is that of its referent, behind the lead of import cells if it is one. -/
theorem nodeSymbol_refers {b : Bool} {k : Key} {s : String} (hk : k.isMangled)
    (h : w.nodeSymbol b k = .ok s) :
    ∃ r, w.Refers k r ∧ s = if k.isImportCell then Symbol.imported r.symbol else r.symbol := by
  cases k with
  | methodEntrypoint m =>
    obtain ⟨i, hi, rfl⟩ := checked_eq_ok h
    exact ⟨_, .methodEntrypoint hi, rfl⟩
  | externMethod m =>
    obtain ⟨i, hi, rfl⟩ := checked_eq_ok h
    exact ⟨_, .externMethod hi, rfl⟩
  | typeDescriptor t =>
    obtain ⟨i, hi, rfl⟩ := checked_eq_ok h
    exact ⟨_, .typeDescriptor hi, rfl⟩
  | importedTypeDescriptor t =>
    obtain ⟨i, hi, rfl⟩ := checked_imported_eq_ok h
    exact ⟨_, .importedTypeDescriptor hi, rfl⟩
  | virtualMethodUse m =>
    obtain ⟨i, hi, rfl⟩ := checked_eq_ok h
    exact ⟨_, .virtualMethodUse hi, rfl⟩
  | methodDictionary m =>
    obtain ⟨i, hi, rfl⟩ := checked_eq_ok h
    exact ⟨_, .methodDictionary hi, rfl⟩
  | importedMethodDictionary m =>
    obtain ⟨i, hi, rfl⟩ := checked_imported_eq_ok h
    exact ⟨_, .importedMethodDictionary hi, rfl⟩
  | typeDictionary t =>
    obtain ⟨i, hi, rfl⟩ := checked_eq_ok h
    exact ⟨_, .typeDictionary hi, rfl⟩
  | importedTypeDictionary t =>
    obtain ⟨i, hi, rfl⟩ := checked_imported_eq_ok h
    exact ⟨_, .importedTypeDictionary hi, rfl⟩
  | externSymbol name => cases hk
  | dataBlob name => cases hk

/-- Two types or two methods of one identity, such as overloads of a method. -/
def Namesakes (w : World) : Entity → Entity → Prop
  | .type t, .type u => t ≠ u ∧ ∃ i, w.typeIdentity t = .ok i ∧ w.typeIdentity u = .ok i
  | .method m, .method n => m ≠ n ∧ ∃ i, w.methodIdentity m = .ok i ∧ w.methodIdentity n = .ok i
  | _, _ => False

theorem NamesDistinct.not_namesakes (hd : w.NamesDistinct) (hw : w.WellFormed) (hi : w.Interned)
    (e e' : Entity) : ¬ w.Namesakes e e' := by
  cases e <;> cases e'
  case method.method m n =>
    rintro ⟨hne, i, hm, hn⟩
    exact hne (hd.methodIdentity_inj hw hi hm hn)
  case type.type t u =>
    rintro ⟨hne, i, ht, hu⟩
    exact hne (hd.typeIdentity_inj hw hi ht hu)
  all_goals exact id

theorem types_eq_or_namesakes {t u : TypeId} {i : TypeIdentity} (ht : w.typeIdentity t = .ok i)
    (hu : w.typeIdentity u = .ok i) : t = u ∨ w.Namesakes (.type t) (.type u) :=
  (Classical.em (t = u)).imp_right fun hne => ⟨hne, i, ht, hu⟩

theorem methods_eq_or_namesakes {m n : MethodId} {i : MethodIdentity}
    (hm : w.methodIdentity m = .ok i) (hn : w.methodIdentity n = .ok i) :
    m = n ∨ w.Namesakes (.method m) (.method n) :=
  (Classical.em (m = n)).imp_right fun hne => ⟨hne, i, hm, hn⟩

/-- What a symbol names and whether it is of an import cell leave one key, or two for one method, or
keys of namesakes. -/
theorem Refers.eq_or_namesakes {k k' : Key} {r : Referent} (h : w.Refers k r) (h' : w.Refers k' r)
    (hcell : k.isImportCell = k'.isImportCell) :
    k = k' ∨ k.SameMethod k' ∨ w.Namesakes k.entity k'.entity := by
  cases h <;> cases h'
  case methodEntrypoint.methodEntrypoint m _ hm n hn =>
    exact (methods_eq_or_namesakes hm hn).imp (congrArg _) .inr
  case methodEntrypoint.externMethod m _ hm n hn =>
    exact .inr ((methods_eq_or_namesakes hm hn).imp_left fun hmn => ⟨m, .inl ⟨rfl, by rw [hmn]⟩⟩)
  case externMethod.methodEntrypoint m _ hm n hn =>
    exact .inr ((methods_eq_or_namesakes hm hn).imp_left fun hmn => ⟨m, .inr ⟨rfl, by rw [hmn]⟩⟩)
  case externMethod.externMethod m _ hm n hn =>
    exact (methods_eq_or_namesakes hm hn).imp (congrArg _) .inr
  case typeDescriptor.typeDescriptor t _ ht u hu =>
    exact (types_eq_or_namesakes ht hu).imp (congrArg _) .inr
  case importedTypeDescriptor.importedTypeDescriptor t _ ht u hu =>
    exact (types_eq_or_namesakes ht hu).imp (congrArg _) .inr
  case virtualMethodUse.virtualMethodUse m _ hm n hn =>
    exact (methods_eq_or_namesakes hm hn).imp (congrArg _) .inr
  case methodDictionary.methodDictionary m _ hm n hn =>
    exact (methods_eq_or_namesakes hm hn).imp (congrArg _) .inr
  case importedMethodDictionary.importedMethodDictionary m _ hm n hn =>
    exact (methods_eq_or_namesakes hm hn).imp (congrArg _) .inr
  case typeDictionary.typeDictionary t _ ht u hu =>
    exact (types_eq_or_namesakes ht hu).imp (congrArg _) .inr
  case importedTypeDictionary.importedTypeDictionary t _ ht u hu =>
    exact (types_eq_or_namesakes ht hu).imp (congrArg _) .inr
  all_goals exact absurd hcell (by simp [Key.isImportCell])

/-- Nodes that share a symbol are of one key, or of two keys for one method, or of namesakes. -/
theorem eq_or_namesakes_of_symbol {k k' : Key} {b b' : Bool} {s : String} (hk : k.isMangled)
    (hk' : k'.isMangled) (h : w.nodeSymbol b k = .ok s) (h' : w.nodeSymbol b' k' = .ok s) :
    k = k' ∨ k.SameMethod k' ∨ w.Namesakes k.entity k'.entity := by
  obtain ⟨r, hr, hs⟩ := nodeSymbol_refers hk h
  obtain ⟨r', hr', hs'⟩ := nodeSymbol_refers hk' h'
  rw [hs] at hs'
  -- No symbol of an import cell is that of a definition, so both keys are or neither is.
  split at hs' <;> split at hs' <;> rename_i hc hc'
  · cases Referent.symbol_inj (String.append_right_inj _ |>.mp hs')
    exact hr.eq_or_namesakes hr' (hc.trans hc'.symm)
  · exact absurd hs' (Referent.imported_ne_symbol _ _)
  · exact absurd hs'.symm (Referent.imported_ne_symbol _ _)
  · cases Referent.symbol_inj hs'
    exact hr.eq_or_namesakes hr' (by simp_all)

/-- Where names are distinct, no namesakes are left. -/
theorem NamesDistinct.key_of_symbol (hd : w.NamesDistinct) (hw : w.WellFormed) (hi : w.Interned)
    {k k' : Key} {b b' : Bool} {s : String} (hk : k.isMangled) (hk' : k'.isMangled)
    (h : w.nodeSymbol b k = .ok s) (h' : w.nodeSymbol b' k' = .ok s) :
    k = k' ∨ k.SameMethod k' :=
  (eq_or_namesakes_of_symbol hk hk' h h').imp_right
    (Or.resolve_right · (hd.not_namesakes hw hi _ _))

theorem nodeSymbol_mangled {k : Key} (hk : k.isMangled) (b b' : Bool) :
    w.nodeSymbol b k = w.nodeSymbol b' k := by
  cases k with
  | externSymbol name => rfl
  | dataBlob name => cases hk
  | _ => rfl

theorem nodeSymbol_sameMethod {k k' : Key} (h : k.SameMethod k') (b : Bool) :
    w.nodeSymbol b k = w.nodeSymbol b k' := by
  obtain ⟨m, ⟨rfl, rfl⟩ | ⟨rfl, rfl⟩⟩ := h <;> rfl

/-- The symbol of an import cell is that of what it points to, behind a lead of its own. -/
theorem nodeSymbol_pointee {k l : Key} (h : k.pointee = some l) (b : Bool) :
    w.nodeSymbol b k = (w.nodeSymbol b l).map ("__imp_" ++ ·) := by
  cases k <;> cases h
  case importedTypeDescriptor t =>
    simp only [nodeSymbol]
    cases w.ensureClosedType t with
    | error e => rfl
    | ok _ => cases w.descriptorSymbol t <;> rfl
  case importedMethodDictionary m =>
    simp only [nodeSymbol]
    cases w.ensureMethodInstance m with
    | error e => rfl
    | ok _ => cases w.methodDictionarySymbol m <;> rfl
  case importedTypeDictionary t =>
    simp only [nodeSymbol]
    cases w.ensureTypeInstance t with
    | error e => rfl
    | ok _ => cases w.typeDictionarySymbol t <;> rfl

/-- In a populated world whose definitions have names of their own, two nodes that are named after
types or methods share a symbol only when they have one key, or the two keys of one method. Import
cells are named after what they point to in any case. -/
theorem nodeSymbol_eq_iff (ds : List Declaration) :
    (∀ (k l : Key) (b : Bool), k.pointee = some l →
      (populated ds).nodeSymbol b k = ((populated ds).nodeSymbol b l).map ("__imp_" ++ ·)) ∧
    ((populated ds).NamesDistinct → ∀ (k k' : Key) (b b' : Bool) (s s' : String),
      k.isMangled → k'.isMangled → (populated ds).nodeSymbol b k = .ok s →
      (populated ds).nodeSymbol b' k' = .ok s' → (s = s' ↔ k = k' ∨ k.SameMethod k')) := by
  refine ⟨fun k l b h => nodeSymbol_pointee h b, fun hd k k' b b' s s' hk hk' h h' => ⟨?_, ?_⟩⟩
  · rintro rfl
    exact hd.key_of_symbol (wellFormed_populated ds) (interned_populated ds) hk hk' h h'
  · rw [nodeSymbol_mangled hk' b' b] at h'
    rintro (rfl | hsame)
    · exact Except.ok.inj (h.symm.trans h')
    · exact Except.ok.inj (h.symm.trans ((nodeSymbol_sameMethod hsame b).trans h'))

/-- Two modules with a type of one name each, of which one is generic and holds a generic method
named like a descriptor. -/
def namesakes : List Declaration :=
  [.module ⟨"A", ⟨1, 0, 0, 0⟩, [], "", 0, []⟩, .module ⟨"A$", ⟨1, 0, 0, 0⟩, [], "", 0, []⟩,
    .type ⟨0⟩ "" "T" 1 none, .type ⟨1⟩ "" "T" 0 none, .typeInstance ⟨0⟩ [⟨1⟩],
    .typeInstance ⟨0⟩ [⟨2⟩], .method ⟨2⟩ "EEType" 1 true, .methodInstance ⟨0⟩ [⟨3⟩]]

theorem nodeSymbol_eq_iff_namesakes :
    ((populated namesakes).nodeSymbol false (.importedTypeDictionary ⟨3⟩) =
      ((populated namesakes).nodeSymbol false (.typeDictionary ⟨3⟩)).map ("__imp_" ++ ·)) ∧
    (populated namesakes).NamesDistinct ∧
    (populated namesakes).nodeSymbol false (.methodEntrypoint ⟨1⟩) =
      .ok "_ilc_A$$T$LTA$u24$$$T$GT$$EEType$LTA$$T$LTA$$T$LTA$u24$$$T$GT$GT$GT" ∧
    (populated namesakes).nodeSymbol false (.typeDescriptor ⟨3⟩) =
      .ok "_ilc_A$$T$LTA$$T$LTA$u24$$$T$GT$GT$EEType" ∧
    ("_ilc_A$$T$LTA$u24$$$T$GT$$EEType$LTA$$T$LTA$$T$LTA$u24$$$T$GT$GT$GT" =
        "_ilc_A$$T$LTA$$T$LTA$u24$$$T$GT$GT$EEType" ↔
      Key.methodEntrypoint ⟨1⟩ = .typeDescriptor ⟨3⟩ ∨
        (Key.methodEntrypoint ⟨1⟩).SameMethod (.typeDescriptor ⟨3⟩)) := by
  obtain ⟨hcells, hdistinct⟩ := nodeSymbol_eq_iff namesakes
  have hnames : (populated namesakes).NamesDistinct := by decide
  have hs : (populated namesakes).nodeSymbol false (.methodEntrypoint ⟨1⟩) =
      .ok "_ilc_A$$T$LTA$u24$$$T$GT$$EEType$LTA$$T$LTA$$T$LTA$u24$$$T$GT$GT$GT" := by cbv
  have hs' : (populated namesakes).nodeSymbol false (.typeDescriptor ⟨3⟩) =
      .ok "_ilc_A$$T$LTA$$T$LTA$u24$$$T$GT$GT$EEType" := by cbv
  exact ⟨hcells (.importedTypeDictionary ⟨3⟩) (.typeDictionary ⟨3⟩) false rfl, hnames, hs, hs',
    hdistinct hnames _ _ false false _ _ rfl rfl hs hs'⟩

end World

end AheadOfTime
