import Mathlib.Data.List.Induction
import Mathlib.Data.Nat.Digits.Defs
import Mathlib.Data.String.Basic

/-!
# Decimal numbers and separators in text

`parseUnsigned max` reads an unsigned decimal number of at most `max`, with an optional plus sign;
`Numeral` is the language it accepts, in positional notation. `rsplitOnce` splits a text at the last
occurrence of a separator.
-/

namespace Text

/-! ## Unsigned decimal numbers -/

/-- Reads a non-empty run of ASCII digits as a number of at most `max`. -/
def parseDigits (max : ℕ) (cs : List Char) : Option ℕ :=
  if cs ≠ [] ∧ cs.all Char.isDigit ∧ Nat.ofDigitChars 10 cs 0 ≤ max then
    some (Nat.ofDigitChars 10 cs 0)
  else none

/-- Reads an unsigned number of at most `max`; a leading plus sign is accepted. -/
def parseUnsigned (max : ℕ) (s : String) : Option ℕ :=
  match s.toList with
  | '+' :: cs => parseDigits max cs
  | cs => parseDigits max cs

theorem isDigit_of_mem_repr {n : ℕ} {c : Char} (h : c ∈ (Nat.repr n).toList) : c.isDigit := by
  rw [Nat.toList_repr] at h
  exact Nat.isDigit_of_mem_toDigits (by decide) (by decide) h

theorem not_mem_repr {n : ℕ} {c : Char} (hc : c.isDigit = false) : c ∉ (Nat.repr n).toList := by
  intro h
  rw [isDigit_of_mem_repr h] at hc
  cases hc

theorem parseDigits_repr {max n : ℕ} (h : n ≤ max) :
    parseDigits max (Nat.repr n).toList = some n := by
  have hall : (Nat.repr n).toList.all Char.isDigit := by
    rw [List.all_eq_true]
    exact fun c hc => isDigit_of_mem_repr hc
  have hval : Nat.ofDigitChars 10 (Nat.repr n).toList 0 = n := by
    rw [Nat.toList_repr, Nat.ofDigitChars_ten_toDigits]
  have hne : (Nat.repr n).toList ≠ [] := by
    rw [Nat.toList_repr]
    exact Nat.toDigits_ne_nil
  unfold parseDigits
  rw [hval, if_pos ⟨hne, hall, h⟩]

/-- The decimal text of a number is read back as that number. -/
theorem parseUnsigned_repr {max n : ℕ} (h : n ≤ max) :
    parseUnsigned max (Nat.repr n) = some n := by
  have hplus : '+' ∉ (Nat.repr n).toList := not_mem_repr (by decide)
  unfold parseUnsigned
  split
  · rename_i cs hcs
    rw [hcs] at hplus
    exact (hplus List.mem_cons_self).elim
  · exact parseDigits_repr h

/-! ### What is accepted -/

/-- The number a run of digits denotes in positional notation. -/
def digitsValue (cs : List Char) : ℕ :=
  Nat.ofDigits 10 (cs.reverse.map fun c => c.toNat - '0'.toNat)

theorem digitsValue_append_singleton (cs : List Char) (c : Char) :
    digitsValue (cs ++ [c]) = 10 * digitsValue cs + (c.toNat - '0'.toNat) := by
  unfold digitsValue
  rw [List.reverse_append, List.reverse_singleton, List.singleton_append, List.map_cons,
    Nat.ofDigits_cons, Nat.add_comm]

/-- Reading digit by digit gives the positional value. -/
theorem ofDigitChars_eq_digitsValue (cs : List Char) :
    Nat.ofDigitChars 10 cs 0 = digitsValue cs := by
  induction cs using List.reverseRecOn with
  | nil => rfl
  | append_singleton cs c ih =>
    rw [Nat.ofDigitChars_append, ih, Nat.ofDigitChars_cons, Nat.ofDigitChars_nil,
      digitsValue_append_singleton]

/-- The text is an optional plus sign and at least one digit, and the digits denote `n`. -/
def Numeral (s : String) (n : ℕ) : Prop :=
  ∃ sign digits : String, s = sign ++ digits ∧ (sign = "" ∨ sign = "+") ∧ digits ≠ "" ∧
    (∀ c ∈ digits.toList, c.isDigit) ∧ digitsValue digits.toList = n

theorem parseDigits_eq_some_iff {max n : ℕ} {cs : List Char} :
    parseDigits max cs = some n ↔
      cs ≠ [] ∧ (∀ c ∈ cs, c.isDigit) ∧ digitsValue cs = n ∧ n ≤ max := by
  unfold parseDigits
  rw [ofDigitChars_eq_digitsValue]
  constructor
  · intro h
    split_ifs at h with hif
    cases h
    exact ⟨hif.1, List.all_eq_true.mp hif.2.1, rfl, hif.2.2⟩
  · rintro ⟨hne, hall, rfl, hle⟩
    exact if_pos ⟨hne, List.all_eq_true.mpr hall, hle⟩

/-- The numerals of at most `max` are accepted, leading zeros and all, and nothing else is. -/
theorem parseUnsigned_eq_some_iff {max n : ℕ} {s : String} :
    parseUnsigned max s = some n ↔ Numeral s n ∧ n ≤ max := by
  unfold parseUnsigned
  constructor
  · intro h
    split at h
    · rename_i cs hs
      obtain ⟨hne, hall, hvalue, hle⟩ := parseDigits_eq_some_iff.mp h
      refine ⟨⟨"+", String.ofList cs, ?_, .inr rfl, ?_, ?_, ?_⟩, hle⟩
      · rw [← String.toList_inj, hs, String.toList_append, String.toList_ofList,
          String.toList_ofList]
        rfl
      · rwa [ne_eq, ← String.toList_inj, String.toList_ofList]
      · rwa [String.toList_ofList]
      · rwa [String.toList_ofList]
    · obtain ⟨hne, hall, hvalue, hle⟩ := parseDigits_eq_some_iff.mp h
      refine ⟨⟨"", s, String.empty_append.symm, .inl rfl, ?_, hall, hvalue⟩, hle⟩
      rwa [ne_eq, ← String.toList_inj]
  · rintro ⟨⟨sign, digits, rfl, hsign, hne, hall, hvalue⟩, hle⟩
    rw [ne_eq, ← String.toList_inj] at hne
    have hparse := parseDigits_eq_some_iff.mpr ⟨hne, hall, hvalue, hle⟩
    rcases hsign with rfl | rfl
    · rw [String.empty_append]
      split
      · -- a plus sign is not a digit
        rename_i cs hs
        have hplus := hall '+' (hs ▸ List.mem_cons_self)
        exact absurd hplus (by decide)
      · exact hparse
    · rw [String.toList_append]
      exact hparse

theorem parseUnsigned_le {max n : ℕ} {s : String} (h : parseUnsigned max s = some n) : n ≤ max :=
  (parseUnsigned_eq_some_iff.mp h).2

/-! ## Joining and splitting -/

/-- Names without the separator are found again between the separators. -/
theorem splitOn_intercalate {sep : Char} {names : List String} (hne : names ≠ [])
    (h : ∀ name ∈ names, sep ∉ name.toList) :
    ((String.intercalate (String.singleton sep) names).toList.splitOn sep).map String.ofList =
      names := by
  have hsep : ∀ l ∈ names.map String.toList, sep ∉ l := by
    intro l hl
    obtain ⟨name, hname, rfl⟩ := List.mem_map.mp hl
    exact h name hname
  have hnames : names.map String.toList ≠ [] := fun hnil => hne (List.map_eq_nil_iff.mp hnil)
  rw [String.toList_intercalate, String.toList_singleton, List.splitOn_intercalate sep hsep hnames,
    List.map_map]
  simp

/-- Names without the separator, the first one not empty, are not joined to the empty text. -/
theorem intercalate_ne_empty {sep : Char} {name : String} {names : List String}
    (hname : name ≠ "") (h : ∀ name' ∈ name :: names, sep ∉ name'.toList) :
    String.intercalate (String.singleton sep) (name :: names) ≠ "" := by
  intro hempty
  have hsplit := splitOn_intercalate (List.cons_ne_nil name names) h
  rw [hempty] at hsplit
  have hempty' : name = "" ∧ names = [] := by simpa using hsplit
  exact hname hempty'.1

/-! ## Splitting at the last separator -/

/-- Splits a list at the last occurrence of `c`. -/
def splitLast (c : Char) : List Char → Option (List Char × List Char)
  | [] => none
  | x :: xs =>
    match splitLast c xs with
    | some (l, r) => some (x :: l, r)
    | none => if x = c then some ([], xs) else none

theorem splitLast_eq_none_iff {c : Char} {cs : List Char} : splitLast c cs = none ↔ c ∉ cs := by
  induction cs with
  | nil => simp [splitLast]
  | cons x xs ih =>
    unfold splitLast
    cases h : splitLast c xs with
    | some p =>
      have hmem : c ∈ xs := by
        by_contra hc
        rw [ih.mpr hc] at h
        cases h
      simp [hmem]
    | none =>
      have hmem : c ∉ xs := ih.mp h
      by_cases hx : x = c
      · simp [hx]
      · simp [hx, hmem, Ne.symm hx]

theorem splitLast_eq_some_iff {c : Char} {cs l r : List Char} :
    splitLast c cs = some (l, r) ↔ cs = l ++ c :: r ∧ c ∉ r := by
  induction cs generalizing l r with
  | nil => simp [splitLast]
  | cons x xs ih =>
    unfold splitLast
    cases h : splitLast c xs with
    | some p =>
      obtain ⟨l', r'⟩ := p
      obtain ⟨hxs, hr'⟩ := ih.mp h
      constructor
      · intro heq
        cases heq
        exact ⟨by rw [hxs, List.cons_append], hr'⟩
      · rintro ⟨heq, hr⟩
        cases l with
        | nil =>
          obtain ⟨-, rfl⟩ := List.cons.inj heq
          exact (hr (hxs ▸ by simp)).elim
        | cons y l =>
          obtain ⟨rfl, htail⟩ := List.cons.inj heq
          have heq' := (ih (l := l) (r := r)).mpr ⟨htail, hr⟩
          rw [h] at heq'
          cases heq'
          rfl
    | none =>
      have hmem : c ∉ xs := splitLast_eq_none_iff.mp h
      constructor
      · intro heq
        split_ifs at heq with hx
        cases heq
        exact ⟨by rw [hx, List.nil_append], hmem⟩
      · rintro ⟨heq, hr⟩
        cases l with
        | nil =>
          obtain ⟨rfl, rfl⟩ := List.cons.inj heq
          exact if_pos rfl
        | cons y l =>
          obtain ⟨-, rfl⟩ := List.cons.inj heq
          exact (hmem (by simp)).elim

/-- Splits a text at the last occurrence of `c`. -/
def rsplitOnce (c : Char) (s : String) : Option (String × String) :=
  (splitLast c s.toList).map fun p => (String.ofList p.1, String.ofList p.2)

theorem rsplitOnce_eq_some_iff {c : Char} {s l r : String} :
    rsplitOnce c s = some (l, r) ↔ s.toList = l.toList ++ c :: r.toList ∧ c ∉ r.toList := by
  unfold rsplitOnce
  rw [Option.map_eq_some_iff, ← splitLast_eq_some_iff]
  constructor
  · rintro ⟨⟨l', r'⟩, h, heq⟩
    obtain ⟨rfl, rfl⟩ := Prod.mk.inj heq
    rw [h, String.toList_ofList, String.toList_ofList]
  · intro h
    exact ⟨_, h, by rw [String.ofList_toList, String.ofList_toList]⟩

end Text
