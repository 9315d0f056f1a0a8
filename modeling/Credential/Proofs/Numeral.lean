import Credential.Numeral
import Mathlib.Algebra.Group.Nat.Defs
import Mathlib.Data.List.Induction
/-!
# Credential.Proofs.Numeral — numerals are read back

The digits that write a number in a base up to sixteen are read back as the number. Some digits write a
number below the power of the base that their count gives. Decimal digits are those that a number is written
with exactly if no zero stands in front of others.
-/

namespace Credential.Numeral

theorem digit?_lt {base d : Nat} {c : Char} (h : digit? base c = some d) : d < base :=
  of_decide_eq_true (Option.filter_eq_some_iff.mp h).2

theorem digit?_digitChar {base d : Nat} (hd : d < base) (hbase : base ≤ 16) :
    digit? base (Nat.digitChar d) = some d := by
  have hall : ∀ e ∈ List.range 16, digit? 16 (Nat.digitChar e) = some e := by decide
  have hlargest := hall d (List.mem_range.mpr (Nat.lt_of_lt_of_le hd hbase))
  exact Option.filter_eq_some_iff.mpr
    ⟨(Option.filter_eq_some_iff.mp hlargest).1, decide_eq_true hd⟩

theorem value?_concat (base : Nat) (cs : List Char) (c : Char) :
    value? base (cs ++ [c]) = (value? base cs).bind fun n => (digit? base c).map (base * n + ·) := by
  unfold value?
  rw [List.foldlM_append]
  exact congrArg _ (funext fun n => Option.bind_fun_some _)

theorem value?_toDigits {base : Nat} (hpos : 1 < base) (hbase : base ≤ 16) (n : Nat) :
    value? base (Nat.toDigits base n) = some n := by
  induction n using Nat.strongRecOn with
  | ind n ih =>
    have hlast : ∀ d < base, ∀ m,
        (digit? base (Nat.digitChar d)).map (base * m + ·) = some (base * m + d) := by
      intro d hd m
      rw [digit?_digitChar hd hbase, Option.map_some]
    rw [Nat.toDigits_eq_if hpos]
    split
    · next hdigit =>
      have hread : value? base ([] ++ [Nat.digitChar n]) = some (base * 0 + n) := by
        rw [value?_concat]
        exact hlast n hdigit 0
      rwa [Nat.mul_zero, Nat.zero_add] at hread
    · next hmore =>
      have hless : n / base < n := Nat.div_lt_self (by omega) hpos
      rw [value?_concat, ih (n / base) hless, Option.bind_some,
        hlast _ (Nat.mod_lt n (by omega)), Nat.div_add_mod]

theorem value?_lt {base n : Nat} {cs : List Char} (h : value? base cs = some n) :
    n < base ^ cs.length := by
  induction cs using List.reverseRecOn generalizing n with
  | nil =>
    cases h
    exact Nat.one_pos
  | append_singleton cs c ih =>
    rw [value?_concat] at h
    obtain ⟨m, hm, hrest⟩ := Option.bind_eq_some_iff.mp h
    obtain ⟨d, hd, rfl⟩ := Option.map_eq_some_iff.mp hrest
    have hdigit := digit?_lt hd
    calc base * m + d < base * m + base := by omega
      _ = base * (m + 1) := rfl
      _ ≤ base * base ^ cs.length := Nat.mul_le_mul_left base (ih hm)
      _ = base ^ (cs ++ [c]).length := by rw [List.length_append, List.length_singleton, Nat.pow_succ']

theorem decimal_toDigits (n : Nat) : decimal (Nat.toDigits 10 n) = n := Nat.ofDigitChars_ten_toDigits

/-- The numeral of a number above zero does not start with a zero. -/
theorem head?_toDigits_ne_zero {n : Nat} (h : 0 < n) : (Nat.toDigits 10 n).head? ≠ some '0' := by
  induction n using Nat.strongRecOn with
  | ind n ih =>
    rw [Nat.toDigits_eq_if (by omega)]
    split
    · -- one digit: the number itself
      match n with
      | 1 | 2 | 3 | 4 | 5 | 6 | 7 | 8 | 9 => decide
    · have hrest := ih (n / 10) (by omega) (by omega)
      rw [List.head?_append]
      cases hd : (Nat.toDigits 10 (n / 10)).head? with
      | none => exact absurd (List.head?_eq_none_iff.mp hd) Nat.toDigits_ne_nil
      | some c =>
        rw [hd] at hrest
        exact hrest

/-- Digits that are written for a number: no zero stands in front of others. -/
structure IsCanonical (cs : List Char) : Prop where
  ne_nil : cs ≠ []
  isDigit : ∀ c ∈ cs, c.isDigit = true
  noLeadingZero : cs.head? = some '0' → cs = ['0']

theorem isCanonical_toDigits (n : Nat) : IsCanonical (Nat.toDigits 10 n) where
  ne_nil := Nat.toDigits_ne_nil
  isDigit _ hc := Nat.isDigit_of_mem_toDigits (by decide) (by decide) hc
  noLeadingZero := by
    intro hzero
    rcases Nat.eq_zero_or_pos n with rfl | hpos
    · rfl
    · exact absurd hzero (head?_toDigits_ne_zero hpos)

theorem toNat_of_isDigit {c : Char} (h : c.isDigit = true) :
    c.toNat = decimalDigit c + 48 ∧ decimalDigit c < 10 := by
  obtain ⟨hlower, hupper⟩ := Char.isDigit_iff_toNat.mp h
  have hzero : '0'.toNat = 48 := rfl
  have hnine : '9'.toNat = 57 := rfl
  unfold decimalDigit
  omega

/-- A decimal digit is the one that its value is written with. -/
theorem digitChar_decimalDigit {c : Char} (h : c.isDigit = true) : Nat.digitChar (decimalDigit c) = c := by
  obtain ⟨hcode, hlt⟩ := toNat_of_isDigit h
  have hall : ∀ d ∈ List.range 10, Nat.digitChar d = Char.ofNat (d + 48) := by decide
  rw [hall _ (List.mem_range.mpr hlt), ← hcode, Char.ofNat_toNat]

theorem decimal_concat (cs : List Char) (c : Char) :
    decimal (cs ++ [c]) = 10 * decimal cs + decimalDigit c :=
  List.foldl_append

/-- Digits without a zero in front are those that their number is written with. -/
theorem toDigits_decimal {cs : List Char} (h : IsCanonical cs) : Nat.toDigits 10 (decimal cs) = cs := by
  induction cs using List.reverseRecOn with
  | nil => exact absurd rfl h.ne_nil
  | append_singleton cs c ih =>
    have hc := h.isDigit c (List.mem_append_right _ (List.mem_singleton_self c))
    have hlt := (toNat_of_isDigit hc).2
    have hlast : Nat.toDigits 10 (decimalDigit c) = [c] := by
      rw [Nat.toDigits_of_lt_base hlt, digitChar_decimalDigit hc]
    rw [decimal_concat]
    rcases eq_or_ne cs [] with rfl | hne
    · rw [List.nil_append, ← hlast]
      exact congrArg _ (Nat.zero_add _)
    · have hzero : cs.head? ≠ some '0' := by
        intro hzero
        have hone := congrArg List.length (h.noLeadingZero (by rw [List.head?_append, hzero]; rfl))
        rw [List.length_append] at hone
        exact hne (List.length_eq_zero_iff.mp (Nat.succ.inj hone))
      have hcs := ih ⟨hne, fun d hd => h.isDigit d (List.mem_append_left _ hd), fun h0 => absurd h0 hzero⟩
      have hpos : 0 < decimal cs := by
        refine Nat.pos_of_ne_zero fun hnone => hzero ?_
        rw [← hcs, hnone]
        rfl
      rw [← Nat.toDigits_append_toDigits (by decide) hpos hlt, hcs, hlast]

/-- What writes a number is a digit. -/
theorem exists_of_mem_toDigits {base n : Nat} (hpos : 1 < base) {c : Char}
    (h : c ∈ Nat.toDigits base n) : ∃ d < base, c = Nat.digitChar d := by
  induction n using Nat.strongRecOn with
  | ind n ih =>
    rw [Nat.toDigits_eq_if hpos] at h
    split at h
    · next hdigit => exact ⟨n, hdigit, List.mem_singleton.mp h⟩
    · next hmore =>
      rcases List.mem_append.mp h with hfirst | hlast
      · exact ih (n / base) (Nat.div_lt_self (by omega) hpos) hfirst
      · exact ⟨n % base, Nat.mod_lt n (by omega), List.mem_singleton.mp hlast⟩

/-- A digit of a base up to sixteen is one of sixteen characters. -/
theorem mem_of_mem_toDigits {base n : Nat} (hpos : 1 < base) (hbase : base ≤ 16) {c : Char}
    (h : c ∈ Nat.toDigits base n) : c ∈ "0123456789abcdef".toList := by
  obtain ⟨d, hd, rfl⟩ := exists_of_mem_toDigits hpos h
  have hall : ∀ e ∈ List.range 16, Nat.digitChar e ∈ "0123456789abcdef".toList := by decide
  exact hall d (List.mem_range.mpr (Nat.lt_of_lt_of_le hd hbase))

end Credential.Numeral
