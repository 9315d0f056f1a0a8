import Credential.Proofs.Except
import Credential.Proofs.Ip
import Credential.Proofs.Json.Pointer
import Credential.Proofs.Percent
import Credential.Url.Host
/-!
# Credential.Proofs.Url.Host — hosts are read again as the same hosts

The text of a host that was read can only be read as that host (`parse_text`). A name is made of labels
that are in lower case and in ASCII or marked as such, so writing it in ASCII again changes no label. An
address is read back from its numbers.
-/

namespace Credential

open List (Forall₂)

/-! ## Labels in ASCII -/

namespace Punycode

/-- The characters that numerals are made of, and the hyphen. -/
def alphabet : List Char := "abcdefghijklmnopqrstuvwxyz0123456789-".toList

theorem digit_mem_alphabet {n : Nat} (h : n < 36) : digit n ∈ alphabet := by
  have hall : ∀ m ∈ List.range 36, digit m ∈ alphabet := by decide
  exact hall n (List.mem_range.mpr h)

theorem threshold_le (k bias : Nat) : 1 ≤ threshold k bias ∧ threshold k bias ≤ 26 := by
  unfold threshold
  split
  · omega
  · split <;> omega

theorem mem_alphabet_of_mem_numeral {bias fuel q k : Nat} {c : Char} (h : c ∈ numeral bias fuel q k) :
    c ∈ alphabet := by
  induction fuel generalizing q k with
  | zero => cases h
  | succ fuel ih =>
    obtain ⟨hlow, hhigh⟩ := threshold_le k bias
    unfold numeral at h
    dsimp only at h
    split at h
    · rw [List.mem_singleton.mp h]
      exact digit_mem_alphabet (by omega)
    · rcases List.mem_cons.mp h with rfl | h
      · have hrest := Nat.mod_lt (q - threshold k bias) (show 0 < 36 - threshold k bias by omega)
        exact digit_mem_alphabet (by omega)
      · exact ih h

section Output

variable {P : Char → Prop} (halphabet : ∀ c ∈ alphabet, P c)

include halphabet

theorem forall_insert (label : List Char) (c : Char) (basic : Nat) {p : Progress}
    (h : ∀ d ∈ p.output, P d) : ∀ d ∈ (insert label c basic p).output, P d := by
  unfold insert
  refine List.foldlRecOn (motive := fun p : Progress => ∀ d ∈ p.output, P d) _ _ h fun p hp e _ => ?_
  split
  · exact hp
  · split
    · intro d hd
      rcases List.mem_append.mp hd with hd | hd
      · exact hp d hd
      · exact halphabet d (mem_alphabet_of_mem_numeral hd)
    · exact hp

theorem forall_insertAll (label : List Char) (basic : Nat) (others : List Char) (last : Nat) {p : Progress}
    (h : ∀ d ∈ p.output, P d) : ∀ d ∈ (insertAll label basic others last p).output, P d := by
  induction others generalizing last p with
  | nil => exact h
  | cons c rest ih =>
    have hinsert := forall_insert halphabet label c basic
      (p := { p with delta := p.delta + (c.toNat - last) * (p.written + 1) }) h
    exact ih _ hinsert

end Output

/-- A label in ASCII has ASCII characters of the label, and letters, digits and hyphens. -/
theorem of_mem_encode {label : List Char} {c : Char} (h : c ∈ encode label) :
    c ∈ label ∧ c.toNat < 128 ∨ c ∈ alphabet := by
  have hstart : ∀ d ∈ (if (label.filter (·.toNat < 128)).isEmpty then []
      else label.filter (·.toNat < 128) ++ ['-']), d ∈ label ∧ d.toNat < 128 ∨ d ∈ alphabet := by
    intro d hd
    split at hd
    · cases hd
    · rcases List.mem_append.mp hd with hd | hd
      · obtain ⟨hmem, hascii⟩ := List.mem_filter.mp hd
        exact .inl ⟨hmem, of_decide_eq_true hascii⟩
      · rw [List.mem_singleton.mp hd]
        exact .inr (by decide)
  unfold encode at h
  exact forall_insertAll (P := fun d => d ∈ label ∧ d.toNat < 128 ∨ d ∈ alphabet) (fun _ => .inr) label
    _ _ _ hstart c h

end Punycode

namespace Host

/-! ## Characters of names -/

/-- The characters that stand for themselves in a name. -/
def IsPlain (c : Char) : Prop := plainForm c = [c]

instance (c : Char) : Decidable (IsPlain c) := inferInstanceAs (Decidable (plainForm c = [c]))

theorem lowercase_of_le {c : Char} (h : 0x460 ≤ c.toNat) : lowercase c = c := by
  have hupper : c.isUpper = false := by
    refine decide_eq_false fun hletter => ?_
    have hcode : c.toNat ≤ 90 := hletter.2
    omega
  unfold lowercase
  dsimp only
  rw [hupper, if_neg Bool.false_ne_true]
  simp only [Bool.and_eq_true, decide_eq_true_eq]
  iterate 7 rw [if_neg (by omega)]

/-- Behind the alphabets with letters of two cases, what is no wide letter is left alone. -/
theorem plainForm_of_le {c : Char} (h : 0x460 ≤ c.toNat)
    (hwide : ¬(0xff01 ≤ c.toNat ∧ c.toNat ≤ 0xff5e)) :
    plainForm c = [] ∨ plainForm c = ['.'] ∨ IsPlain c := by
  unfold IsPlain plainForm
  dsimp only
  split
  · exact .inl rfl
  · split
    · exact .inr (.inl rfl)
    · rw [if_neg (by simpa using hwide), lowercase_of_le h]
      exact .inr (.inr rfl)

/-- What a character stands for stands for itself. -/
theorem isPlain_of_mem {c d : Char} (h : d ∈ plainForm c) : IsPlain d := by
  have hlow : ∀ n ∈ List.range 0x460, (plainForm (Char.ofNat n)).all (IsPlain ·) = true := by
    decide +kernel
  have hwide : ∀ n ∈ List.range 94, (plainForm (Char.ofNat (0xff01 + n))).all (IsPlain ·) = true := by
    decide +kernel
  by_cases hc : c.toNat < 0x460
  · refine List.all_iff_forall_prop.mp (hlow c.toNat (List.mem_range.mpr hc)) d ?_
    rwa [Char.ofNat_toNat]
  by_cases hcwide : 0xff01 ≤ c.toNat ∧ c.toNat ≤ 0xff5e
  · refine List.all_iff_forall_prop.mp (hwide (c.toNat - 0xff01) (List.mem_range.mpr (by omega))) d ?_
    rwa [show 0xff01 + (c.toNat - 0xff01) = c.toNat by omega, Char.ofNat_toNat]
  rcases plainForm_of_le (Nat.not_lt.mp hc) hcwide with hnone | hdot | hself
  · rw [hnone] at h
    cases h
  · rw [hdot, List.mem_singleton] at h
    subst h
    decide
  · rw [hself, List.mem_singleton] at h
    exact h ▸ hself

theorem flatMap_plainForm {cs : List Char} (h : ∀ c ∈ cs, IsPlain c) : cs.flatMap plainForm = cs := by
  induction cs with
  | nil => rfl
  | cons c cs ih =>
    obtain ⟨hc, hcs⟩ := List.forall_mem_cons.mp h
    rw [List.flatMap_cons, hc, ih hcs]
    rfl

/-! ## Labels -/

/-- What labels of names are after they are written in ASCII. -/
structure IsLabel (label : List Char) : Prop where
  plain : ∀ c ∈ label, c ≠ '.' ∧ IsPlain c
  ascii : "xn--".toList <+: label ∨ ∀ c ∈ label, c.toNat < 128

theorem isLabel_of_labelToAscii {label out : List Char} (hplain : ∀ c ∈ label, c ≠ '.' ∧ IsPlain c)
    (h : labelToAscii label = .ok out) : IsLabel out := by
  have halphabet : ∀ c ∈ Punycode.alphabet, c ≠ '.' ∧ IsPlain c :=
    List.all_iff_forall_prop.mp (by decide)
  have hmark : ∀ c ∈ "xn--".toList, c ≠ '.' ∧ IsPlain c :=
    List.all_iff_forall_prop.mp (by decide)
  unfold labelToAscii at h
  split at h
  · split at h
    · cases h
      exact ⟨hplain, .inl ⟨_, rfl⟩⟩
    · cases h
  · split at h
    · next hascii =>
      cases h
      exact ⟨hplain, .inr fun c hc => of_decide_eq_true (List.all_eq_true.mp hascii c hc)⟩
    · cases h
      refine ⟨fun c hc => ?_, .inl ⟨_, rfl⟩⟩
      rcases List.mem_append.mp hc with hc | hc
      · exact hmark c hc
      · rcases Punycode.of_mem_encode hc with ⟨hlabel, -⟩ | hc
        · exact hplain c hlabel
        · exact halphabet c hc

/-- A label in ASCII can only be written in ASCII as it is. -/
theorem labelToAscii_of_isLabel {label out : List Char} (hlabel : IsLabel label)
    (h : labelToAscii label = .ok out) : out = label := by
  unfold labelToAscii at h
  split at h
  · split at h
    · exact (Except.ok.inj h).symm
    · cases h
  · next hmark =>
    rcases hlabel.ascii with ⟨rest, hrest⟩ | hascii
    · exact absurd hrest.symm (hmark rest)
    · rw [if_pos (List.all_eq_true.mpr fun c hc => decide_eq_true (hascii c hc))] at h
      exact (Except.ok.inj h).symm

/-! ## Names -/

/-- What names are after they are written in ASCII. -/
structure IsName (name : List Char) : Prop where
  labels : ∃ labels, labels ≠ [] ∧ (∀ label ∈ labels, IsLabel label) ∧
    name = ['.'].intercalate labels
  allowed : ∀ c ∈ name, isForbiddenInName c = false

theorem isName_of_nameToAscii {cs name : List Char} (h : nameToAscii cs = .ok name) : IsName name := by
  obtain ⟨labels, hlabels, h⟩ := bind_eq_ok.mp h
  dsimp only at h
  split at h
  · cases h
  · next hallowed =>
    cases h
    have hall := mapM_eq_ok.mp hlabels
    refine ⟨⟨labels, ?_, fun label hlabel => ?_, rfl⟩, fun c hc => ?_⟩
    · rintro rfl
      rw [List.forall₂_nil_right_iff, Text.splitAt_eq_splitOn] at hall
      exact List.splitOn_ne_nil _ _ hall
    · obtain ⟨part, hpart, hascii⟩ := exists_of_mem_left hall.flip hlabel
      rw [Text.splitAt_eq_splitOn, List.splitOn_eq_splitOnP] at hpart
      refine isLabel_of_labelToAscii (fun c hc => ?_) hascii
      obtain ⟨hmem, hdot⟩ := of_mem_splitOnP hpart c hc
      obtain ⟨d, -, hd⟩ := List.mem_flatMap.mp hmem
      exact ⟨beq_eq_false_iff_ne.mp hdot, isPlain_of_mem hd⟩
    · exact eq_false_of_ne_true (List.any_eq_false.mp (eq_false_of_ne_true hallowed) c hc)

/-- The labels of a name are read again. -/
theorem splitAt_intercalate {labels : List (List Char)} (hne : labels ≠ [])
    (h : ∀ label ∈ labels, IsLabel label) :
    Text.splitAt '.' ((['.'].intercalate labels).flatMap plainForm) = labels := by
  rw [flatMap_plainForm, Text.splitAt_eq_splitOn]
  · refine List.splitOn_intercalate '.' (fun label hlabel hdot => ?_) hne
    exact ((h label hlabel).plain '.' hdot).1 rfl
  · intro c hc
    rcases of_mem_intercalate hc with rfl | ⟨label, hlabel, hc⟩
    · decide
    · exact ((h label hlabel).plain c hc).2

/-- A name in ASCII can only be written in ASCII as it is. -/
theorem nameToAscii_of_isName {name again : List Char} (hname : IsName name)
    (h : nameToAscii name = .ok again) : again = name := by
  obtain ⟨labels, hne, hall, rfl⟩ := hname.labels
  obtain ⟨outs, houts, h⟩ := bind_eq_ok.mp h
  rw [splitAt_intercalate hne hall] at houts
  have hsame : labels = outs := by
    refine eq_of_forall₂ (mapM_eq_ok.mp houts) fun label hlabel out hout => ?_
    exact (labelToAscii_of_isLabel (hall label hlabel) hout).symm
  dsimp only at h
  split at h
  · cases h
  · cases h
    rw [hsame]

/-! ## Addresses of version 4 -/

theorem number?_toDigits (n : Nat) : number? (Nat.toDigits 10 n) = some n := by
  rcases Nat.eq_zero_or_pos n with rfl | hpos
  · rfl
  have hhead := Numeral.head?_toDigits_ne_zero hpos
  have hread : Numeral.value? 10 (Nat.toDigits 10 n) = some n :=
    Numeral.value?_toDigits (by decide) (by decide) n
  unfold number?
  split
  · next h => exact absurd h Nat.toDigits_ne_nil
  · next h => exact absurd (congrArg List.head? h) hhead
  · next h => exact absurd (congrArg List.head? h) hhead
  · next h => exact absurd (congrArg List.head? h) hhead
  · exact hread

theorem address?_cons {first : Nat} (h : first < 256) (next : Nat) (rest : List Nat) (left : Nat) :
    address? (first :: next :: rest) left =
      (address? (next :: rest) (left - 1)).map (first * Nat.pow 256 (left - 1) + ·) := by
  rw [address?, if_pos h]
  exact List.cons_ne_nil _ _

theorem address?_lt : ∀ {numbers : List Nat} {left n : Nat}, numbers.length ≤ left →
    address? numbers left = some n → n < 256 ^ left
  | [], _, _, _, h => by cases h
  | [last], left, n, _, h => by
    unfold address? at h
    split at h
    · next hlt =>
      cases h
      exact hlt
    · cases h
  | first :: next :: rest, left, n, hlength, h => by
    unfold address? at h
    split at h
    · next hfirst =>
      obtain ⟨low, hlow, rfl⟩ := Option.map_eq_some_iff.mp h
      obtain ⟨left, rfl⟩ := Nat.exists_eq_add_one.mpr (Nat.lt_of_lt_of_le (Nat.succ_pos _) hlength)
      have hrest : low < 256 ^ left := address?_lt (Nat.le_of_succ_le_succ hlength) hlow
      show first * 256 ^ left + low < 256 ^ (left + 1)
      calc first * 256 ^ left + low < first * 256 ^ left + 256 ^ left := Nat.add_lt_add_left hrest _
        _ = (first + 1) * 256 ^ left := (Nat.succ_mul _ _).symm
        _ ≤ 256 * 256 ^ left := Nat.mul_le_mul_right _ hfirst
        _ = 256 ^ (left + 1) := (Nat.pow_succ').symm
    · cases h

theorem of_parseNumeric {cs : List Char} {host : Host} (h : parseNumeric cs = .ok host) :
    ∃ n < 256 ^ 4, host = .ipv4 n := by
  unfold parseNumeric at h
  dsimp only at h
  split at h
  · next n hn =>
    obtain ⟨numbers, -, hn⟩ := Option.bind_eq_some_iff.mp hn
    split at hn
    · next hlength => exact ⟨n, address?_lt hlength hn, (Except.ok.inj h).symm⟩
    · cases hn
  · cases h

/-- The four numbers of an address. -/
def bytes4 (n : Nat) : List Nat := [n / 16777216, n / 65536 % 256, n / 256 % 256, n % 256]

theorem toList_text4 (n : Nat) :
    (Ip.text4 n).toList = ['.'].intercalate ((bytes4 n).map (Nat.toDigits 10)) := by
  unfold Ip.text4
  rw [String.toList_intercalate, List.map_map]
  refine congrArg _ (List.map_congr_left fun g _ => ?_)
  exact Nat.toList_repr

theorem mem_digits_of_mem_toDigits {n : Nat} {c : Char} (h : c ∈ Nat.toDigits 10 n) :
    c ∈ "0123456789".toList := by
  obtain ⟨d, hd, rfl⟩ := Numeral.exists_of_mem_toDigits (by decide) h
  have hall : ∀ e ∈ List.range 10, Nat.digitChar e ∈ "0123456789".toList := by decide
  exact hall d (List.mem_range.mpr hd)

theorem isLabel_toDigits (n : Nat) : IsLabel (Nat.toDigits 10 n) := by
  have hall : ∀ c ∈ "0123456789".toList, (c ≠ '.' ∧ IsPlain c) ∧ c.toNat < 128 :=
    List.all_iff_forall_prop.mp (by decide)
  exact ⟨fun c hc => (hall c (mem_digits_of_mem_toDigits hc)).1,
    .inr fun c hc => (hall c (mem_digits_of_mem_toDigits hc)).2⟩

theorem isName_text4 (n : Nat) : IsName (Ip.text4 n).toList := by
  rw [toList_text4]
  refine ⟨⟨(bytes4 n).map (Nat.toDigits 10), List.cons_ne_nil _ _, fun label hlabel => ?_, rfl⟩,
    fun c hc => ?_⟩
  · obtain ⟨m, -, rfl⟩ := List.mem_map.mp hlabel
    exact isLabel_toDigits m
  · have hall : ∀ c ∈ "0123456789".toList, isForbiddenInName c = false :=
      List.all_iff_forall_prop.mp (by decide)
    rcases of_mem_intercalate hc with rfl | ⟨part, hpart, hc⟩
    · decide
    · obtain ⟨m, -, rfl⟩ := List.mem_map.mp hpart
      exact hall c (mem_digits_of_mem_toDigits hc)

theorem parts_text4 (n : Nat) : parts (Ip.text4 n).toList = (bytes4 n).map (Nat.toDigits 10) := by
  have hsplit : Text.splitAt '.' (Ip.text4 n).toList = (bytes4 n).map (Nat.toDigits 10) := by
    rw [toList_text4, Text.splitAt_eq_splitOn]
    refine List.splitOn_intercalate '.' (fun part hpart hdot => ?_) (List.cons_ne_nil _ _)
    obtain ⟨m, -, rfl⟩ := List.mem_map.mp hpart
    exact absurd (mem_digits_of_mem_toDigits hdot) (by decide)
  unfold parts
  dsimp only
  rw [hsplit, if_neg]
  simp [bytes4, Nat.toDigits_ne_nil]

theorem endsInNumber_text4 (n : Nat) : endsInNumber (Ip.text4 n).toList = true := by
  have hdigits : (Nat.toDigits 10 (n % 256)).all Char.isDigit = true :=
    List.all_eq_true.mpr fun c hc => Nat.isDigit_of_mem_toDigits (by decide) (by decide) hc
  unfold endsInNumber
  rw [parts_text4]
  simp [bytes4, Nat.toDigits_ne_nil, hdigits]

/-- The text of an address of version 4 is read back. -/
theorem parseNumeric_text4 {n : Nat} (h : n < 256 ^ 4) :
    parseNumeric (Ip.text4 n).toList = .ok (.ipv4 n) := by
  have hnumbers : ((bytes4 n).map (Nat.toDigits 10)).mapM number? = some (bytes4 n) :=
    mapM_of_forall₂
      (List.forall₂_map_left_iff.mpr (List.forall₂_same.mpr fun m _ => number?_toDigits m))
  have hlimit : (256 : Nat) ^ 4 = 4294967296 := rfl
  have haddress : address? (bytes4 n) 4 = some n := by
    rw [bytes4, address?_cons (by omega), address?_cons (by omega), address?_cons (by omega), address?,
      if_pos (Nat.mod_lt n (by decide))]
    refine congrArg some ?_
    change n / 16777216 * 16777216 + (n / 65536 % 256 * 65536 + (n / 256 % 256 * 256 + n % 256)) = n
    omega
  have hcount : (bytes4 n).length ≤ 4 := Nat.le_refl 4
  unfold parseNumeric
  dsimp only
  rw [parts_text4, hnumbers, Option.bind_eq_bind, Option.bind_some, if_pos hcount, haddress]

/-! ## Hosts -/

/-- A host comes out of brackets or is what a name in ASCII stands for. -/
theorem parse_cases {cs : List Char} {host : Host} (h : parse cs = .ok host) :
    cs.head? = some '[' ∧ bracketed cs = .ok host ∨
      ∃ text name, Percent.decode? cs = some text ∧ nameToAscii text.toList = .ok name ∧ name ≠ [] ∧
        (endsInNumber name = true ∧ parseNumeric name = .ok host ∨
          endsInNumber name = false ∧ host = .name (String.ofList name)) := by
  unfold parse at h
  split at h
  · next hbracket => exact .inl ⟨hbracket, h⟩
  · split at h
    · cases h
    · next text htext =>
      obtain ⟨name, hname, h⟩ := bind_eq_ok.mp h
      split at h
      · cases h
      · next hne =>
        refine .inr ⟨text, name, htext, hname, mt List.isEmpty_iff.mpr hne, ?_⟩
        split at h
        · next hnumber => exact .inl ⟨hnumber, h⟩
        · next hnumber => exact .inr ⟨eq_false_of_ne_true hnumber, (Except.ok.inj h).symm⟩

theorem parse_bracket (cs : List Char) : parse ('[' :: cs) = bracketed ('[' :: cs) := by
  unfold parse
  exact if_pos rfl

theorem of_bracketed {cs : List Char} {host : Host} (h : bracketed cs = .ok host) :
    ∃ groups, Ip.parse6? (cs.drop 1).dropLast = some groups ∧ host = .ipv6 groups := by
  unfold bracketed at h
  split at h
  · split at h
    · next groups hgroups => exact ⟨groups, hgroups, (Except.ok.inj h).symm⟩
    · cases h
  · cases h

/-- What a host is after it was read. -/
inductive IsRead : Host → Prop where
  | name {name : List Char} (hname : IsName name) (hne : name ≠ []) (hnumber : endsInNumber name = false) :
      IsRead (.name (String.ofList name))
  | ipv4 {n : Nat} (h : n < 256 ^ 4) : IsRead (.ipv4 n)
  | ipv6 {groups : List Nat} (hlength : groups.length = 8) (h : ∀ g ∈ groups, g < 65536) :
      IsRead (.ipv6 groups)

theorem isRead_of_parse {cs : List Char} {host : Host} (h : parse cs = .ok host) : IsRead host := by
  rcases parse_cases h with ⟨-, h⟩ | ⟨text, name, -, hname, hne, ⟨-, h⟩ | ⟨hnumber, rfl⟩⟩
  · obtain ⟨groups, hgroups, rfl⟩ := of_bracketed h
    obtain ⟨hlength, hbits⟩ := Ip.of_parse6? hgroups
    exact .ipv6 hlength hbits
  · obtain ⟨n, hn, rfl⟩ := of_parseNumeric h
    exact .ipv4 hn
  · exact .name (isName_of_nameToAscii hname) hne hnumber

/-- A name in ASCII can only be read as what it stands for. -/
theorem parse_of_isName {name : List Char} {host : Host} (hname : IsName name)
    (h : parse name = .ok host) :
    endsInNumber name = true ∧ parseNumeric name = .ok host ∨
      endsInNumber name = false ∧ host = .name (String.ofList name) := by
  have hpercent : '%' ∉ name := fun hc => absurd (hname.allowed _ hc) (by decide)
  rcases parse_cases h with ⟨hbracket, -⟩ | ⟨text, again, htext, hagain, -, hcases⟩
  · exact absurd (hname.allowed _ (List.mem_of_mem_head? hbracket)) (by decide)
  · rw [Percent.decode?_of_not_mem hpercent] at htext
    cases htext
    rw [String.toList_ofList] at hagain
    rwa [nameToAscii_of_isName hname hagain] at hcases

theorem toList_text_ipv6 (groups : List Nat) :
    (Host.ipv6 groups).text.toList = '[' :: ((Ip.text6 groups).toList ++ [']']) := by
  rw [text, String.toList_append, String.toList_append]
  rfl

/-- The text of a host is a name in ASCII or stands in brackets. -/
theorem text_cases {host : Host} (hread : IsRead host) :
    IsName host.text.toList ∧ host.text.toList ≠ [] ∨ ∃ groups, host = .ipv6 groups := by
  cases hread with
  | @name name hname hne _ =>
    rw [text, String.toList_ofList]
    exact .inl ⟨hname, hne⟩
  | @ipv4 n _ =>
    refine .inl ⟨isName_text4 n, fun hempty => ?_⟩
    have hparts := parts_text4 n
    rw [show (Ip.text4 n).toList = [] from hempty] at hparts
    exact absurd (congrArg List.length hparts) (show 1 ≠ 4 by decide)
  | @ipv6 groups _ _ => exact .inr ⟨groups, rfl⟩

/-- The text of a host can only be read as the host. -/
theorem parse_text {host again : Host} (hread : IsRead host) (h : parse host.text.toList = .ok again) :
    again = host := by
  cases hread with
  | @name name hname hne hnumber =>
    rw [text, String.toList_ofList] at h
    rcases parse_of_isName hname h with ⟨hyes, -⟩ | ⟨-, hagain⟩
    · rw [hnumber] at hyes
      cases hyes
    · exact hagain
  | @ipv4 n hn =>
    rcases parse_of_isName (isName_text4 n) h with ⟨-, hagain⟩ | ⟨hno, -⟩
    · rw [parseNumeric_text4 hn] at hagain
      exact (Except.ok.inj hagain).symm
    · rw [endsInNumber_text4] at hno
      cases hno
  | @ipv6 groups hlength hbits =>
    rw [toList_text_ipv6, parse_bracket] at h
    obtain ⟨read, hgroups, rfl⟩ := of_bracketed h
    rw [List.drop_one, List.tail_cons, List.dropLast_concat, Ip.parse6?_text6 hlength hbits] at hgroups
    rw [Option.some.inj hgroups]

end Host

end Credential
