import Httpware.Lib.Python

/-!
# Integer literals in ASCII digits

An `IntLiteral` is a text that `int()` takes for an integer, whatever its length: ASCII white space
around an optional sign and one or more ASCII digits. `intOfString_text` is what `int()` makes of it,
on both sides of its digit limit, and `isAsciiDigits_text` which of these texts `str.isdigit` accepts
once stripped.
-/

namespace Python

/-! ## Stripping -/

/-- Dropping from a text what is in front of a part that has none of it. -/
theorem dropWhile_pad {space : Char → Bool} {pad core : List Char} (rest : List Char)
    (hpad : ∀ c ∈ pad, space c = true) (hcore : ∀ c ∈ core, space c = false) (hne : core ≠ []) :
    (pad ++ (core ++ rest)).dropWhile space = core ++ rest := by
  obtain ⟨c, tail, rfl⟩ := List.exists_cons_of_ne_nil hne
  have hc : space c = false := hcore c List.mem_cons_self
  rw [List.dropWhile_append_of_pos hpad]
  simp [hc]

/-- Stripping takes the white space around a text that has none. -/
theorem stripChars_pad {space : Char → Bool} {before core after : List Char}
    (hbefore : ∀ c ∈ before, space c = true) (hcore : ∀ c ∈ core, space c = false)
    (hne : core ≠ []) (hafter : ∀ c ∈ after, space c = true) :
    stripChars space (String.ofList (before ++ (core ++ after))) = core := by
  have hback : (core ++ after).reverse.dropWhile space = core.reverse := by
    have hpad : ∀ c ∈ after.reverse, space c = true := fun c hc => hafter c (List.mem_reverse.mp hc)
    have key := dropWhile_pad [] hpad (fun c hc => hcore c (List.mem_reverse.mp hc))
      (mt List.reverse_eq_nil_iff.mp hne)
    rwa [List.append_nil, ← List.reverse_append] at key
  unfold stripChars
  rw [String.toList_ofList, dropWhile_pad after hbefore hcore hne, hback, List.reverse_reverse]

/-! ## Digits -/

/-- The code of an ASCII digit. -/
theorem toNat_of_isDigit {c : Char} (h : c.isDigit = true) : 48 ≤ c.toNat ∧ c.toNat ≤ 57 :=
  Char.isDigit_iff_toNat.mp h

/-- An ASCII digit is no white space. -/
theorem isSpace_of_isDigit {c : Char} (h : c.isDigit = true) : isSpace c = false := by
  obtain ⟨hlo, hhi⟩ := toNat_of_isDigit h
  simp only [isSpace, isIntSpace, Bool.or_eq_false_iff, Bool.and_eq_false_iff, decide_eq_false_iff_not,
    beq_eq_false_iff_ne]
  omega

/-- The value of an ASCII digit. -/
theorem digitValue_of_isDigit {c : Char} (h : c.isDigit = true) :
    digitValue c = some (c.toNat - 48) := by
  obtain ⟨hlo, hhi⟩ := toNat_of_isDigit h
  -- The ASCII digits are the first block of the table.
  have hfind : digitZeros.find? (fun start => start ≤ c.toNat && c.toNat < start + 10) = some 48 := by
    unfold digitZeros
    rw [List.find?_cons_of_pos]
    simp only [Bool.and_eq_true, decide_eq_true_eq]
    omega
  rw [digitValue, hfind, Option.map_some]

/-- ASCII digits are read one by one. -/
theorem readDigits_of_isDigit {chars : List Char} (hne : chars ≠ [])
    (h : ∀ c ∈ chars, c.isDigit = true) :
    readDigits chars = some (chars.map fun c => c.toNat - 48) := by
  fun_induction readDigits chars with
  | case1 => exact absurd rfl hne
  | case2 c => rw [digitValue_of_isDigit (h c List.mem_cons_self)]; rfl
  | case3 c rest _ =>
    have hunderscore := h '_' (List.mem_cons_of_mem _ List.mem_cons_self)
    exact absurd hunderscore (by decide)
  | case4 c rest hrest _ ih =>
    have hrest : rest ≠ [] := hrest
    rw [digitValue_of_isDigit (h c List.mem_cons_self),
      ih hrest fun d hd => h d (List.mem_cons_of_mem _ hd)]
    rfl

/-! ## Literals -/

/-- The sign of an integer literal. -/
inductive IntSign
  | unsigned
  | plus
  | minus
deriving DecidableEq, Repr

namespace IntSign

/-- Its text. -/
def chars : IntSign → List Char
  | unsigned => []
  | plus => ['+']
  | minus => ['-']

/-- Its factor. -/
def factor : IntSign → ℤ
  | minus => -1
  | _ => 1

end IntSign

/-- An integer literal in ASCII digits: white space around an optional sign and one or more digits. -/
structure IntLiteral where
  before : List Char
  sign : IntSign
  digits : List Char
  after : List Char
  before_space : ∀ c ∈ before, isIntSpace c = true ∧ c.toNat < 128
  digits_ne_nil : digits ≠ []
  digits_isDigit : ∀ c ∈ digits, c.isDigit = true
  after_space : ∀ c ∈ after, isIntSpace c = true ∧ c.toNat < 128

namespace IntLiteral

/-- The text of a literal. -/
def text (l : IntLiteral) : String :=
  String.ofList (l.before ++ ((l.sign.chars ++ l.digits) ++ l.after))

/-- The integer that a literal denotes. -/
def value (l : IntLiteral) : ℤ :=
  l.sign.factor * ofDigits (l.digits.map fun c => c.toNat - 48)

/-- A character of the sign or the digits. -/
theorem mem_core {l : IntLiteral} {c : Char} (h : c ∈ l.sign.chars ++ l.digits) :
    c = '+' ∨ c = '-' ∨ c.isDigit = true := by
  rcases List.mem_append.mp h with hsign | hdigit
  · cases hs : l.sign with
    | unsigned =>
      rw [hs] at hsign
      exact absurd hsign List.not_mem_nil
    | plus =>
      rw [hs] at hsign
      exact .inl (List.mem_singleton.mp hsign)
    | minus =>
      rw [hs] at hsign
      exact .inr (.inl (List.mem_singleton.mp hsign))
  · exact .inr (.inr (l.digits_isDigit c hdigit))

/-- ASCII white space comes before the digits in the code. -/
theorem toNat_of_isIntSpace {c : Char} (h : isIntSpace c = true) (hascii : c.toNat < 128) :
    c.toNat ≤ 32 := by
  simp only [isIntSpace, Bool.or_eq_true, Bool.and_eq_true, decide_eq_true_eq, beq_iff_eq] at h
  omega

/-- So do the signs: no character of a literal is beyond the digits. -/
theorem toNat_lt_of_mem_text {l : IntLiteral} {c : Char} (h : c ∈ l.text.toList) :
    c.toNat < 58 := by
  rw [text, String.toList_ofList] at h
  rcases List.mem_append.mp h with hbefore | hrest
  · have := toNat_of_isIntSpace (l.before_space c hbefore).1 (l.before_space c hbefore).2
    omega
  rcases List.mem_append.mp hrest with hcore | hafter
  · rcases mem_core hcore with rfl | rfl | hdigit
    · decide
    · decide
    · have := (toNat_of_isDigit hdigit).2
      omega
  · have := toNat_of_isIntSpace (l.after_space c hafter).1 (l.after_space c hafter).2
    omega

/-- Stripping a literal leaves its sign and digits. -/
theorem stripChars_text (l : IntLiteral) {space : Char → Bool}
    (hspace : ∀ c, isIntSpace c = true → space c = true)
    (hcore : ∀ c, space c = true → isSpace c = true) :
    stripChars space l.text = l.sign.chars ++ l.digits := by
  apply stripChars_pad
  · exact fun c hc => hspace c (l.before_space c hc).1
  · intro c hc
    have hnone : isSpace c = false := by
      rcases mem_core hc with rfl | rfl | hdigit
      · decide
      · decide
      · exact isSpace_of_isDigit hdigit
    by_contra hsome
    rw [hcore c (Bool.eq_true_of_not_eq_false hsome)] at hnone
    cases hnone
  · exact mt List.append_eq_nil_iff.mp fun h => l.digits_ne_nil h.2
  · exact fun c hc => hspace c (l.after_space c hc).1

/-- `int()` of a literal is its integer, up to the digit limit. -/
theorem intOfString_text (l : IntLiteral) : intOfString l.text =
    if l.digits.length > intMaxStrDigits then .error .valueError else .ok l.value := by
  have hstrip : stripChars isIntSpace l.text = l.sign.chars ++ l.digits :=
    l.stripChars_text (fun _ h => h) fun c h => by rw [isSpace, h, Bool.true_or]
  have hread := readDigits_of_isDigit l.digits_ne_nil l.digits_isDigit
  unfold intOfString
  rw [hstrip]
  cases hsign : l.sign with
  | plus =>
    simp only [IntSign.chars, List.cons_append, List.nil_append, hread, List.length_map]
    rw [value, hsign]
    rfl
  | minus =>
    simp only [IntSign.chars, List.cons_append, List.nil_append, hread, List.length_map]
    rw [value, hsign]
    rfl
  | unsigned =>
    -- The first character is a digit, so it is no sign.
    have hminus : '-' ∉ l.digits := fun h => absurd (l.digits_isDigit '-' h) (by decide)
    have hplus : '+' ∉ l.digits := fun h => absurd (l.digits_isDigit '+' h) (by decide)
    simp only [IntSign.chars, List.nil_append]
    split
    · next chars heq =>
      rw [heq] at hminus
      exact absurd List.mem_cons_self hminus
    · next chars heq =>
      rw [heq] at hplus
      exact absurd List.mem_cons_self hplus
    · simp only [hread, List.length_map]
      rw [value, hsign]
      rfl

/-- A stripped literal is all ASCII digits where it has no sign. -/
theorem isAsciiDigits_text (l : IntLiteral) : isAsciiDigits l.text = decide (l.sign = .unsigned) := by
  have hstrip : stripChars isSpace l.text = l.sign.chars ++ l.digits :=
    l.stripChars_text (fun c h => by rw [isSpace, h, Bool.true_or]) fun _ h => h
  have hascii : (l.text.toList.all fun c => c.toNat < 128) = true := by
    rw [List.all_eq_true]
    intro c hc
    rw [decide_eq_true_eq]
    exact (toNat_lt_of_mem_text hc).trans (by decide)
  have hne : (l.sign.chars ++ l.digits).isEmpty = false := by
    rw [List.isEmpty_eq_false_iff]
    exact mt List.append_eq_nil_iff.mp fun h => l.digits_ne_nil h.2
  have hdigits : l.digits.all Char.isDigit = true := List.all_eq_true.mpr l.digits_isDigit
  simp only [isAsciiDigits, hstrip, hne, hascii, List.all_append, hdigits, Bool.and_true,
    Bool.not_false, Bool.true_and]
  -- What is left is whether the sign's characters are digits.
  cases l.sign with
  | unsigned => decide
  | plus => decide
  | minus => decide

end IntLiteral

end Python
