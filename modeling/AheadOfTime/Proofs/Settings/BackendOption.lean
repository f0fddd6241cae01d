import AheadOfTime.Settings.BackendOption
import Mathlib

/-! Backend options as texts. A text has a part before its first `=` and, if it has one, a part after
it (`Parts`), and it is accepted or refused by these parts. Main statement: reading accepts just the
texts of proper options, each as the option that it is the text of. -/

namespace AheadOfTime

namespace Text

/-- The characters with the property White_Space, one by one. -/
def blanks : List Char :=
  ['\x09', '\x0a', '\x0b', '\x0c', '\x0d', ' ', '\u0085', '\u00a0', '\u1680', '\u2000', '\u2001',
    '\u2002', '\u2003', '\u2004', '\u2005', '\u2006', '\u2007', '\u2008', '\u2009', '\u200a',
    '\u2028', '\u2029', '\u202f', '\u205f', '\u3000']

theorem isBlank_iff {c : Char} : isBlank c ↔ c ∈ blanks := by
  simp only [isBlank, blankRanges, List.any_cons, List.any_nil, Bool.or_eq_true, Bool.and_eq_true,
    decide_eq_true_eq, Bool.false_eq_true, or_false, blanks, List.mem_cons, List.not_mem_nil,
    ← Char.toNat_inj, Char.reduceToNat]
  omega

end Text

namespace BackendOption

/-- The part of a text before the first `=`, and the part after it if there is one. -/
inductive Parts : List Char → List Char → Option (List Char) → Prop where
  | bare {name} (h : '=' ∉ name) : Parts name name none
  | valued {name value} (h : '=' ∉ name) : Parts (name ++ '=' :: value) name (some value)

theorem exists_parts (cs : List Char) : ∃ name value, Parts cs name value := by
  induction cs with
  | nil => exact ⟨[], none, .bare List.not_mem_nil⟩
  | cons c cs ih =>
    by_cases hc : c = '='
    · subst hc
      exact ⟨[], some cs, .valued List.not_mem_nil⟩
    · have hcons {name : List Char} (h : '=' ∉ name) : '=' ∉ c :: name := by
        simpa [h] using fun e => hc e.symm
      obtain ⟨name, value, hparts⟩ := ih
      cases hparts with
      | bare h => exact ⟨c :: cs, none, .bare (hcons h)⟩
      | @valued _ value h => exact ⟨c :: name, some value, .valued (hcons h)⟩

theorem Parts.split_eq {cs name : List Char} {value : Option (List Char)}
    (h : Parts cs name value) : split cs = (name, value) := by
  have hpos {name : List Char} (h : '=' ∉ name) : ∀ c ∈ name, decide (c ≠ '=') = true := by
    intro c hc
    simpa using fun e : c = '=' => h (e ▸ hc)
  cases h with
  | bare h =>
    have hdrop : cs.dropWhile (· ≠ '=') = [] := List.dropWhile_eq_nil_iff.mpr (hpos h)
    have htake : cs.takeWhile (· ≠ '=') = cs := List.takeWhile_eq_self_iff.mpr (hpos h)
    rw [split, hdrop, htake]
  | @valued _ value h =>
    have hdrop : (name ++ '=' :: value).dropWhile (· ≠ '=') = '=' :: value := by
      rw [List.dropWhile_append_of_pos (hpos h)]
      simp
    have htake : (name ++ '=' :: value).takeWhile (· ≠ '=') = name := by
      rw [List.takeWhile_append_of_pos (hpos h)]
      simp
    rw [split, hdrop, htake]

/-- The grammar of options, by the parts of a text. -/
structure Acceptable (name : List Char) (value : Option (List Char)) : Prop where
  name_ne_nil : name ≠ []
  no_blank : ∀ c ∈ name, c ∉ Text.blanks
  value_ne_nil : value ≠ some []

theorem accepts_iff {name : List Char} {value : Option (List Char)} :
    accepts name value ↔ Acceptable name value := by
  have hblank : name.any Text.isBlank = false ↔ ∀ c ∈ name, c ∉ Text.blanks := by
    simp [← Text.isBlank_iff]
  constructor
  · intro h
    simp only [accepts, Bool.and_eq_true, decide_eq_true_eq, Bool.not_eq_true'] at h
    exact ⟨h.1.1, hblank.mp h.1.2, h.2⟩
  · intro h
    simp only [accepts, Bool.and_eq_true, decide_eq_true_eq, Bool.not_eq_true']
    exact ⟨⟨h.name_ne_nil, hblank.mpr h.no_blank⟩, h.value_ne_nil⟩

/-- The option of a name and a value. -/
def ofParts (name : List Char) (value : Option (List Char)) : BackendOption :=
  ⟨String.ofList name, value.map String.ofList⟩

section Parse

variable {s : String} {name : List Char} {value : Option (List Char)}

theorem parse_of_acceptable (h : Parts s.toList name value) (ha : Acceptable name value) :
    parse s = .ok (ofParts name value) := by
  rw [parse, h.split_eq]
  exact if_pos (accepts_iff.mpr ha)

theorem parse_of_not_acceptable (h : Parts s.toList name value) (ha : ¬ Acceptable name value) :
    parse s = .error (.malformed s) := by
  rw [parse, h.split_eq]
  exact if_neg (mt accepts_iff.mp ha)

theorem text_ofParts (h : Parts s.toList name value) : (ofParts name value).text = s := by
  rw [← String.toList_inj]
  generalize s.toList = cs at h
  cases h <;> simp [ofParts, text]

end Parse

/-- An option that has a text: its name can be told from what follows it. -/
structure Proper (o : BackendOption) : Prop where
  name_ne_empty : o.name ≠ ""
  no_sign : '=' ∉ o.name.toList
  no_blank : ∀ c ∈ o.name.toList, c ∉ Text.blanks
  value_ne_empty : o.value ≠ some ""

theorem Proper.parse_text {o : BackendOption} (h : o.Proper) : parse o.text = .ok o := by
  obtain ⟨name, value⟩ := o
  have hparts : Parts (text ⟨name, value⟩).toList name.toList (value.map String.toList) := by
    cases value with
    | none => exact .bare h.no_sign
    | some value =>
      have htext : (text ⟨name, some value⟩).toList = name.toList ++ '=' :: value.toList := by
        simp [text]
      rw [htext]
      exact .valued h.no_sign
  have hacceptable : Acceptable name.toList (value.map String.toList) := by
    refine ⟨by simpa using h.name_ne_empty, h.no_blank, ?_⟩
    cases value with
    | none => simp
    | some value => simpa using h.value_ne_empty
  rw [parse_of_acceptable hparts hacceptable, ofParts]
  cases value <;> simp

theorem proper_ofParts {cs name : List Char} {value : Option (List Char)} (h : Parts cs name value)
    (ha : Acceptable name value) : (ofParts name value).Proper := by
  have hsign : '=' ∉ name := by cases h <;> assumption
  refine ⟨by simpa [ofParts] using ha.name_ne_nil, by simpa [ofParts] using hsign,
    by simpa [ofParts] using ha.no_blank, ?_⟩
  cases value with
  | none => simp [ofParts]
  | some value => simpa [ofParts] using ha.value_ne_nil

theorem parse_eq_ok_iff {s : String} {o : BackendOption} :
    parse s = .ok o ↔ o.Proper ∧ o.text = s := by
  constructor
  · intro h
    obtain ⟨name, value, hparts⟩ := exists_parts s.toList
    by_cases ha : Acceptable name value
    · cases (parse_of_acceptable hparts ha).symm.trans h
      exact ⟨proper_ofParts hparts ha, text_ofParts hparts⟩
    · cases (parse_of_not_acceptable hparts ha).symm.trans h
  · rintro ⟨hproper, rfl⟩
    exact hproper.parse_text

theorem parse_error_eq {s : String} {e : SettingsError} (h : parse s = .error e) :
    e = .malformed s := by
  obtain ⟨name, value, hparts⟩ := exists_parts s.toList
  by_cases ha : Acceptable name value
  · cases (parse_of_acceptable hparts ha).symm.trans h
  · exact Except.error.inj (h.symm.trans (parse_of_not_acceptable hparts ha))

/-- A text is accepted just when its parts are, and its option prints as the text itself; the error
about any other text quotes it. A proper option is read off its text, so that texts that are
accepted are one to one with proper options. -/
theorem parse_inverts_text :
    (∀ s : String, ∃ name value, Parts s.toList name value ∧
      ((∃ o, parse s = .ok o) ↔ Acceptable name value) ∧
      (∀ o, parse s = .ok o → o.Proper ∧ o.text = s) ∧
      ∀ e, parse s = .error e → e = .malformed s) ∧
    (∀ o : BackendOption, o.Proper → parse o.text = .ok o) ∧
    ∀ s s' o, parse s = .ok o → parse s' = .ok o → s = s' := by
  refine ⟨fun s => ?_, fun o ho => ho.parse_text, fun s s' o hs hs' => ?_⟩
  · obtain ⟨name, value, hparts⟩ := exists_parts s.toList
    refine ⟨name, value, hparts, ⟨?_, fun ha => ⟨_, parse_of_acceptable hparts ha⟩⟩,
      fun o ho => parse_eq_ok_iff.mp ho, fun e he => parse_error_eq he⟩
    rintro ⟨o, ho⟩
    by_contra ha
    cases (parse_of_not_acceptable hparts ha).symm.trans ho
  · rw [← (parse_eq_ok_iff.mp hs).2, ← (parse_eq_ok_iff.mp hs').2]

/-- Signs and spaces may stand in a value, and an ideographic space may not stand in a name. -/
theorem parse_inverts_text_spaced :
    Proper ⟨"target-cpu", some "x=y z"⟩ ∧
    parse "target-cpu=x=y z" = .ok ⟨"target-cpu", some "x=y z"⟩ ∧
    parse "wide\u3000name=x" = .error (.malformed "wide\u3000name=x") := by
  obtain ⟨hread, hprinted, -⟩ := parse_inverts_text
  have hproper : Proper ⟨"target-cpu", some "x=y z"⟩ :=
    ⟨by decide, by decide, by simp [Text.blanks], by decide⟩
  obtain ⟨name, value, hparts, haccepted, -, herror⟩ := hread "wide\u3000name=x"
  have hsplit : split "wide\u3000name=x".toList = ("wide\u3000name".toList, some ['x']) := by
    decide
  have hname : name = "wide\u3000name".toList :=
    congrArg Prod.fst (hparts.split_eq.symm.trans hsplit)
  have hrefused : ¬ ∃ o, parse "wide\u3000name=x" = .ok o := by
    rw [haccepted]
    intro ha
    exact ha.no_blank '\u3000' (by rw [hname]; decide) (by decide)
  refine ⟨hproper, hprinted _ hproper, ?_⟩
  cases hparse : parse "wide\u3000name=x" with
  | ok o => exact absurd ⟨o, hparse⟩ hrefused
  | error e => rw [herror e hparse]

end BackendOption

end AheadOfTime
