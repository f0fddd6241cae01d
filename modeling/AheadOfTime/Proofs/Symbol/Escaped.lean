import AheadOfTime.World.Symbol

/-! Escaped names tell where they end. A character is written as itself, as `$` and one of some
short codes, or as `$u`, its digits and `$`; no such form begins another, and none begins like a mark
of the structure. So a name can be read off what begins with it (`escaped_append_inj`). Main
statement: over all texts this is a self-delimiting code in letters, digits, `_` and `$`. -/

namespace AheadOfTime.Symbol

theorem digitChar_inj : ∀ m < 16, ∀ n < 16, Nat.digitChar m = Nat.digitChar n → m = n := by decide

theorem isAlphanum_digitChar : ∀ n < 16, (Nat.digitChar n).isAlphanum := by decide

theorem toDigits_inj {m n : Nat} (h : Nat.toDigits 16 m = Nat.toDigits 16 n) : m = n := by
  induction m using Nat.strongRecOn generalizing n with
  | ind m ih =>
    rw [Nat.toDigits_eq_if (by omega), Nat.toDigits_eq_if (n := n) (by omega)] at h
    split at h <;> split at h
    · exact digitChar_inj m ‹_› n ‹_› (List.singleton_inj.mp h)
    · simp [List.singleton_eq_append_iff] at h
    · simp [List.append_eq_singleton_iff] at h
    · obtain ⟨hdiv, hmod⟩ := List.append_inj' h rfl
      have hdiv := ih (m / 16) (by omega) hdiv
      have hmod := digitChar_inj _ (by omega) _ (by omega) (List.singleton_inj.mp hmod)
      omega

theorem isAlphanum_of_mem_toDigits {n : Nat} {c : Char} (h : c ∈ Nat.toDigits 16 n) :
    c.isAlphanum := by
  induction n using Nat.strongRecOn with
  | ind n ih =>
    rw [Nat.toDigits_eq_if (by omega)] at h
    split at h
    · rw [List.mem_singleton.mp h]
      exact isAlphanum_digitChar n ‹_›
    · rcases List.mem_append.mp h with h | h
      · exact ih (n / 16) (by omega) h
      · rw [List.mem_singleton.mp h]
        exact isAlphanum_digitChar _ (by omega)

/-- A character that stands for itself. -/
def isPlain (c : Char) : Bool := c.isAlphanum || c = '_'

/-- The characters with a short code, and the codes. -/
def shortCodes : List (Char × List Char) :=
  [('.', ['_']), ('<', ['l', 't']), ('>', ['g', 't']), (',', ['c', 'm']), ('[', ['l', 'b']),
   (']', ['r', 'b']), ('(', ['l', 'p']), (')', ['r', 'p']), (':', ['c', 'l']), ('-', ['d'])]

/-- What follows the `$` where a character is written by its code point. -/
def longCode (c : Char) : List Char := 'u' :: (Nat.toDigits 16 c.toNat ++ ['$'])

theorem escapedChar_of_mem_shortCodes : ∀ a ∈ shortCodes, escapedChar a.1 = '$' :: a.2 := by
  decide

theorem escapedChar_cases (c : Char) :
    (isPlain c ∧ escapedChar c = [c]) ∨
    (∃ code, (c, code) ∈ shortCodes ∧ escapedChar c = '$' :: code) ∨
    escapedChar c = '$' :: longCode c := by
  by_cases hplain : isPlain c
  · exact .inl ⟨hplain, if_pos hplain⟩
  by_cases hshort : ∃ code, (c, code) ∈ shortCodes
  · obtain ⟨code, hc⟩ := hshort
    exact .inr (.inl ⟨code, hc, escapedChar_of_mem_shortCodes _ hc⟩)
  · refine .inr (.inr ?_)
    rw [escapedChar, if_neg (by exact hplain)]
    simp only [shortCodes, List.mem_cons, Prod.mk.injEq, List.not_mem_nil, or_false, exists_or,
      exists_and_left, exists_eq, and_true, not_or] at hshort
    simp [hshort, longCode]

theorem ne_dollar_of_isPlain {c : Char} (h : isPlain c) : c ≠ '$' := by
  rintro rfl
  exact absurd h (by decide)

/-- No short code begins another, or the form with the code point. -/
theorem shortCodes_prefix_free : ∀ a ∈ shortCodes, ∀ b ∈ shortCodes, a.2 <+: b.2 → a = b := by
  decide

/-- A character that begins a code, after the `$`. -/
def beginsCode (c : Char) : Bool := c.isLower || c = '_'

theorem shortCodes_eq_cons {a : Char × List Char} (ha : a ∈ shortCodes) :
    ∃ k rest, a.2 = k :: rest ∧ beginsCode k ∧ k ≠ 'u' := by
  have hall : ∀ a ∈ shortCodes, a.2 ≠ [] ∧ a.2.head?.all (fun k => beginsCode k && k ≠ 'u') := by
    decide
  obtain ⟨hne, hhead⟩ := hall a ha
  obtain ⟨k, rest, hk⟩ := List.exists_cons_of_ne_nil hne
  rw [hk] at hhead
  exact ⟨k, rest, hk, by simpa using hhead⟩

theorem shortCode_append_inj {a b : Char × List Char} (ha : a ∈ shortCodes) (hb : b ∈ shortCodes)
    {x y : List Char} (h : a.2 ++ x = b.2 ++ y) : a = b ∧ x = y := by
  have hab : a = b := by
    rcases List.prefix_or_prefix_of_prefix (h ▸ List.prefix_append a.2 x)
      (List.prefix_append b.2 y) with hp | hp
    · exact shortCodes_prefix_free a ha b hb hp
    · exact (shortCodes_prefix_free b hb a ha hp).symm
  subst hab
  exact ⟨rfl, List.append_cancel_left h⟩

theorem cut_inj {l m x y : List Char} (hl : '$' ∉ l) (hm : '$' ∉ m)
    (h : l ++ '$' :: x = m ++ '$' :: y) : l = m ∧ x = y := by
  have htake (k z : List Char) (hk : '$' ∉ k) : (k ++ '$' :: z).takeWhile (· ≠ '$') = k := by
    have hpos : ∀ c ∈ k, decide (c ≠ '$') := by
      intro c hc
      simpa using fun hd : c = '$' => hk (hd ▸ hc)
    rw [List.takeWhile_append_of_pos hpos]
    simp
  have hlm : l = m := by rw [← htake l x hl, h, htake m y hm]
  subst hlm
  exact ⟨rfl, (List.cons.inj (List.append_cancel_left h)).2⟩

theorem longCode_append_inj {c d : Char} {x y : List Char}
    (h : longCode c ++ x = longCode d ++ y) : c = d ∧ x = y := by
  have hdigits (c : Char) : '$' ∉ Nat.toDigits 16 c.toNat := fun hc =>
    absurd (isAlphanum_of_mem_toDigits hc) (by decide)
  simp only [longCode, List.cons_append, List.append_assoc, List.nil_append] at h
  obtain ⟨hcd, hxy⟩ := cut_inj (hdigits c) (hdigits d) (List.cons.inj h).2
  exact ⟨Char.toNat_inj.mp (toDigits_inj hcd), hxy⟩

theorem shortCode_ne_longCode {a : Char × List Char} (ha : a ∈ shortCodes) (c : Char)
    (x y : List Char) : a.2 ++ x ≠ longCode c ++ y := by
  obtain ⟨k, rest, hk, -, hu⟩ := shortCodes_eq_cons ha
  intro h
  rw [hk] at h
  exact hu (List.cons.inj h).1

/-- No form of a character begins another. -/
theorem escapedChar_append_inj {c d : Char} {x y : List Char}
    (h : escapedChar c ++ x = escapedChar d ++ y) : c = d ∧ x = y := by
  rcases escapedChar_cases c with ⟨hc, ec⟩ | ⟨k, hc, ec⟩ | ec <;>
    rcases escapedChar_cases d with ⟨hd, ed⟩ | ⟨l, hd, ed⟩ | ed <;>
    rw [ec, ed] at h <;> obtain ⟨hhead, htail⟩ := List.cons.inj h
  case inl.inl => exact ⟨hhead, htail⟩
  case inl.inr.inl | inl.inr.inr => exact absurd hhead (ne_dollar_of_isPlain hc)
  case inr.inl.inl | inr.inr.inl => exact absurd hhead.symm (ne_dollar_of_isPlain hd)
  case inr.inl.inr.inl =>
    obtain ⟨hcd, hxy⟩ := shortCode_append_inj hc hd htail
    exact ⟨congrArg Prod.fst hcd, hxy⟩
  case inr.inl.inr.inr => exact (shortCode_ne_longCode hc d x y htail).elim
  case inr.inr.inr.inl => exact (shortCode_ne_longCode hd c y x htail.symm).elim
  case inr.inr.inr.inr => exact longCode_append_inj htail

/-- The marks of the structure. -/
def marks : List (List Char) :=
  [scopeMark, nameMark, openMark, separatorMark, closeMark, descriptorMark]

/-- Nothing follows, or a mark does. -/
def Delimited (x : List Char) : Prop := x = [] ∨ ∃ m ∈ marks, m <+: x

theorem marks_eq_cons {m : List Char} (hm : m ∈ marks) :
    ∃ k rest, m = '$' :: k :: rest ∧ beginsCode k = false := by
  simp only [marks, List.mem_cons, List.not_mem_nil, or_false] at hm
  rcases hm with rfl | rfl | rfl | rfl | rfl | rfl <;> exact ⟨_, _, rfl, by decide⟩

/-- No form of a character begins like a mark. -/
theorem not_delimited_escapedChar (c : Char) (x : List Char) : ¬ Delimited (escapedChar c ++ x) := by
  have hcode (k : Char) (rest : List Char) (h : escapedChar c ++ x = '$' :: k :: rest) :
      beginsCode k := by
    rcases escapedChar_cases c with ⟨hc, e⟩ | ⟨code, hc, e⟩ | e <;> rw [e] at h <;>
      obtain ⟨hhead, htail⟩ := List.cons.inj h
    · exact absurd hhead (ne_dollar_of_isPlain hc)
    · obtain ⟨l, rest', hl, hbegins, -⟩ := shortCodes_eq_cons hc
      rw [show code = l :: rest' from hl] at htail
      rwa [← (List.cons.inj htail).1]
    · rw [← (List.cons.inj htail).1]
      decide
  rintro (h | ⟨m, hm, rest, h⟩)
  · rcases escapedChar_cases c with ⟨-, e⟩ | ⟨code, -, e⟩ | e <;> simp [e] at h
  · obtain ⟨k, more, rfl, hk⟩ := marks_eq_cons hm
    simp [hcode k _ h.symm] at hk

theorem escaped_nil_append (x : List Char) : escaped [] ++ x = x := rfl

theorem escaped_cons (c : Char) (cs : List Char) : escaped (c :: cs) = escapedChar c ++ escaped cs :=
  rfl

/-- Where a mark or nothing follows, an escaped name can be told from what follows it. -/
theorem escaped_append_inj {a b x y : List Char} (hx : Delimited x) (hy : Delimited y)
    (h : escaped a ++ x = escaped b ++ y) : a = b ∧ x = y := by
  induction a generalizing b with
  | nil =>
    cases b with
    | nil => exact ⟨rfl, h⟩
    | cons d b =>
      rw [escaped_nil_append, escaped_cons, List.append_assoc] at h
      exact (not_delimited_escapedChar d _ (h ▸ hx)).elim
  | cons c a ih =>
    cases b with
    | nil =>
      rw [escaped_nil_append, escaped_cons, List.append_assoc] at h
      exact (not_delimited_escapedChar c _ (h ▸ hy)).elim
    | cons d b =>
      rw [escaped_cons, escaped_cons, List.append_assoc, List.append_assoc] at h
      obtain ⟨rfl, htail⟩ := escapedChar_append_inj h
      obtain ⟨rfl, hxy⟩ := ih htail
      exact ⟨rfl, hxy⟩

/-- A letter, a digit, `_` or `$`, all of ASCII. -/
structure IsSymbolChar (c : Char) : Prop where
  kind : c.isAlpha ∨ c.isDigit ∨ c = '_' ∨ c = '$'
  ascii : c.toNat < 128

theorem toNat_lt_of_isAlphanum {c : Char} (h : c.isAlphanum) : c.toNat < 128 := by
  have hupto {z : Char} (hz : z.toNat < 128) (hc : c.val ≤ z.val) : c.toNat < 128 :=
    Nat.lt_of_le_of_lt (UInt32.le_iff_toNat_le.mp hc) hz
  rcases (Bool.or_eq_true _ _).mp h with halpha | hdigit
  · rcases (Bool.or_eq_true _ _).mp halpha with hupper | hlower
    · have hz : c.val ≤ 'Z'.val := (of_decide_eq_true hupper).2
      exact hupto (by decide) hz
    · have hz : c.val ≤ 'z'.val := of_decide_eq_true ((Bool.and_eq_true _ _).mp hlower).2
      exact hupto (by decide) hz
  · exact Nat.lt_of_le_of_lt (Char.isDigit_iff_toNat.mp hdigit).2 (by decide)

theorem isSymbolChar_dollar : IsSymbolChar '$' := ⟨by simp, by decide⟩

theorem isSymbolChar_of_isPlain {c : Char} (h : isPlain c) : IsSymbolChar c := by
  rcases (Bool.or_eq_true _ _).mp h with hc | hc
  · refine ⟨?_, toNat_lt_of_isAlphanum hc⟩
    rcases (Bool.or_eq_true _ _).mp hc with halpha | hdigit
    · exact .inl halpha
    · exact .inr (.inl hdigit)
  · obtain rfl := of_decide_eq_true hc
    exact ⟨by simp, by decide⟩

theorem isSymbolChar_escapedChar (c : Char) : ∀ d ∈ escapedChar c, IsSymbolChar d := by
  intro d hd
  rcases escapedChar_cases c with ⟨hc, e⟩ | ⟨code, hc, e⟩ | e <;> rw [e] at hd
  · rw [List.mem_singleton.mp hd]
    exact isSymbolChar_of_isPlain hc
  · have hcodes : ∀ a ∈ shortCodes, a.2.all isPlain := by decide
    rcases List.mem_cons.mp hd with rfl | hd
    · exact isSymbolChar_dollar
    · exact isSymbolChar_of_isPlain (List.all_eq_true.mp (hcodes _ hc) d hd)
  · simp only [longCode, List.mem_cons, List.mem_append, List.not_mem_nil, or_false] at hd
    rcases hd with rfl | rfl | hd | rfl
    · exact isSymbolChar_dollar
    · exact isSymbolChar_of_isPlain (by decide)
    · exact isSymbolChar_of_isPlain (by simp [isPlain, isAlphanum_of_mem_toDigits hd])
    · exact isSymbolChar_dollar

/-- A name as it stands in a symbol, as text. -/
def escapedName (name : String) : String := String.ofList (escaped name.toList)

/-- Names are written in a code that tells where each ends, whatever their characters: what begins
with a name and goes on with a mark or ends there begins with that name alone. The code makes do
with letters, digits, `_` and `$`. -/
theorem names_self_delimiting :
    (∀ a b x y : String, Delimited x.toList → Delimited y.toList →
      escapedName a ++ x = escapedName b ++ y → a = b ∧ x = y) ∧
    ∀ a : String, ∀ c ∈ (escapedName a).toList, IsSymbolChar c := by
  constructor
  · intro a b x y hx hy h
    have htexts : escaped a.toList ++ x.toList = escaped b.toList ++ y.toList := by
      simpa [escapedName] using congrArg String.toList h
    obtain ⟨hab, hxy⟩ := escaped_append_inj hx hy htexts
    exact ⟨String.toList_inj.mp hab, String.toList_inj.mp hxy⟩
  · intro a c hc
    rw [escapedName, String.toList_ofList, escaped, List.mem_flatMap] at hc
    obtain ⟨d, -, hd⟩ := hc
    exact isSymbolChar_escapedChar d c hd

/-- A name that looks like an escape and a mark is read off as it is: `$` is itself escaped, and the
`$` that ends a code may stand before a mark. -/
theorem names_self_delimiting_markLike :
    escapedName "$u24$N$" ++ "$$Run" = "$u24$u24$u24$N$u24$$$Run" ∧
    Delimited "$$Run".toList ∧
    ∀ b y : String, Delimited y.toList →
      escapedName b ++ y = "$u24$u24$u24$N$u24$$$Run" → b = "$u24$N$" ∧ y = "$$Run" := by
  have htext : escapedName "$u24$N$" ++ "$$Run" = "$u24$u24$u24$N$u24$$$Run" := by decide
  have hmark : Delimited "$$Run".toList := .inr ⟨nameMark, by decide, by decide⟩
  refine ⟨htext, hmark, fun b y hy h => ?_⟩
  exact names_self_delimiting.1 b "$u24$N$" y "$$Run" hy hmark (h.trans htext.symm)

end AheadOfTime.Symbol
