import Credential.Ip
import Credential.Proofs.Lists
import Credential.Proofs.Numeral
import Credential.Proofs.Text
/-!
# Credential.Proofs.Ip — addresses are read back from their texts

What is read as an address of version 6 has eight groups of sixteen bits. The text of such groups leaves
out a run of zeros (`longestRun_zeros`), which reading puts in again, and so the text is read back as the
groups (`parse6?_text6`).
-/

namespace Credential.Ip

/-! ## What is read -/

theorem octet?_lt {cs : List Char} {n : Nat} (h : octet? cs = some n) : n < 256 := by
  unfold octet? at h
  split at h
  · cases h
  · cases h
    decide
  · cases h
  · split at h
    · exact Nat.lt_succ_of_le (of_decide_eq_true (Option.filter_eq_some_iff.mp h).2)
    · cases h

theorem parse4?_lt {cs : List Char} {n : Nat} (h : parse4? cs = some n) : n < 65536 * 65536 := by
  obtain ⟨octets, hoctets, hn⟩ := Option.bind_eq_some_iff.mp h
  have hall : ∀ octet ∈ octets, octet < 256 := forall_of_mapM (fun _ _ => octet?_lt) hoctets
  split at hn
  · cases hn
    simp only [List.forall_mem_cons, List.not_mem_nil, false_implies, implies_true, and_true] at hall
    omega
  · cases hn

theorem group?_lt {cs : List Char} {n : Nat} (h : group? cs = some n) : n < 65536 := by
  unfold group? at h
  split at h
  · cases h
  · next hlength =>
    rw [Bool.or_eq_true, not_or, decide_eq_true_iff, Nat.not_lt] at hlength
    calc n < 16 ^ cs.length := Numeral.value?_lt h
      _ ≤ 16 ^ 4 := Nat.pow_le_pow_right (by decide) hlength.2

theorem groups?_lt : ∀ {parts : List (List Char)} {groups : List Nat},
    groups? parts = some groups → ∀ g ∈ groups, g < 65536
  | [], _, h => by
    cases h
    exact fun _ hg => absurd hg List.not_mem_nil
  | [last], groups, h => by
    unfold groups? at h
    split at h
    · next n hn =>
      have hlt := parse4?_lt hn
      have hpow : Nat.pow 2 16 = 65536 := rfl
      rw [hpow] at h
      cases h
      intro g hg
      simp only [List.mem_cons, List.not_mem_nil, or_false] at hg
      omega
    · obtain ⟨n, hn, rfl⟩ := Option.map_eq_some_iff.mp h
      intro g hg
      rw [List.mem_singleton.mp hg]
      exact group?_lt hn
  | first :: second :: rest, groups, h => by
    obtain ⟨n, hn, h⟩ := Option.bind_eq_some_iff.mp h
    obtain ⟨others, hothers, h⟩ := Option.bind_eq_some_iff.mp h
    cases h
    exact List.forall_mem_cons.mpr ⟨group?_lt hn, groups?_lt hothers⟩

/-- An address of version 6 has eight groups of sixteen bits. -/
theorem of_parse6? {cs : List Char} {groups : List Nat} (h : parse6? cs = some groups) :
    groups.length = 8 ∧ ∀ g ∈ groups, g < 65536 := by
  unfold parse6? at h
  dsimp only at h
  split at h
  · obtain ⟨hgroups, hlength⟩ := Option.filter_eq_some_iff.mp h
    exact ⟨of_decide_eq_true hlength, groups?_lt hgroups⟩
  · obtain ⟨high, hhigh, h⟩ := Option.bind_eq_some_iff.mp h
    obtain ⟨low, hlow, h⟩ := Option.bind_eq_some_iff.mp h
    split at h
    · next hfew =>
      cases h
      refine ⟨by simp only [List.length_append, List.length_replicate]; omega, fun g hg => ?_⟩
      rcases List.mem_append.mp hg with hg | hg
      · rcases List.mem_append.mp hg with hg | hg
        · exact forall_of_mapM (fun _ _ => group?_lt) hhigh g hg
        · rw [List.eq_of_mem_replicate hg]
          decide
      · exact groups?_lt hlow g hg
    · cases h

/-! ## What is written -/

/-- Groups in hexadecimal digits with colons between them. -/
def joined (groups : List Nat) : List Char := [':'].intercalate (groups.map (Nat.toDigits 16))

theorem not_mem_toDigits {c : Char} (h : c ∉ "0123456789abcdef".toList) (n : Nat) :
    c ∉ Nat.toDigits 16 n :=
  mt (Numeral.mem_of_mem_toDigits (by decide) (by decide)) h

theorem group?_toDigits {n : Nat} (h : n < 65536) : group? (Nat.toDigits 16 n) = some n := by
  have hlength : (Nat.toDigits 16 n).length ≤ 4 :=
    (Nat.length_toDigits_le_iff (by decide) (by decide)).mpr h
  unfold group?
  rw [if_neg, Numeral.value?_toDigits (by decide) (by decide)]
  rw [Bool.or_eq_true, not_or, decide_eq_true_iff, Nat.not_lt, List.isEmpty_iff]
  exact ⟨Nat.toDigits_ne_nil, hlength⟩

/-- A group is no address of version 4. -/
theorem parse4?_toDigits (n : Nat) : parse4? (Nat.toDigits 16 n) = none := by
  unfold parse4?
  rw [Text.splitAt_eq_splitOn, List.splitOn_eq_singleton (not_mem_toDigits (by decide) n)]
  cases hoctet : octet? (Nat.toDigits 16 n) with
  | none => simp [hoctet]
  | some a => simp [hoctet]

theorem mapM_group? {groups : List Nat} (h : ∀ g ∈ groups, g < 65536) :
    (groups.map (Nat.toDigits 16)).mapM group? = some groups := by
  induction groups with
  | nil => rfl
  | cons g rest ih =>
    obtain ⟨hg, hrest⟩ := List.forall_mem_cons.mp h
    rw [List.map_cons, List.mapM_cons, group?_toDigits hg, ih hrest]
    rfl

theorem groups?_toDigits : ∀ {groups : List Nat}, (∀ g ∈ groups, g < 65536) →
    groups? (groups.map (Nat.toDigits 16)) = some groups
  | [], _ => rfl
  | [last], h => by
    rw [List.map_singleton, groups?, parse4?_toDigits, group?_toDigits (h last List.mem_cons_self)]
    rfl
  | first :: second :: rest, h => by
    obtain ⟨hfirst, hrest⟩ := List.forall_mem_cons.mp h
    have ih := groups?_toDigits hrest
    rw [List.map_cons, groups?, group?_toDigits hfirst, ih]
    · rfl
    · exact List.cons_ne_nil _ _

/-- Groups are what stands between the colons. -/
theorem parts_joined (groups : List Nat) :
    (if (joined groups).isEmpty then [] else Text.splitAt ':' (joined groups)) =
      groups.map (Nat.toDigits 16) := by
  cases groups with
  | nil => rfl
  | cons g rest =>
    have hparts : ((g :: rest).map (Nat.toDigits 16)) ≠ [] := List.cons_ne_nil _ _
    have hsplit : Text.splitAt ':' (joined (g :: rest)) = (g :: rest).map (Nat.toDigits 16) := by
      rw [Text.splitAt_eq_splitOn]
      refine List.splitOn_intercalate ':' (fun part hpart => ?_) hparts
      obtain ⟨n, -, rfl⟩ := List.mem_map.mp hpart
      exact not_mem_toDigits (by decide) n
    rw [if_neg, hsplit]
    intro hempty
    rw [List.isEmpty_iff.mp hempty] at hsplit
    have hg : [] = Nat.toDigits 16 g := (List.cons.inj hsplit).1
    exact Nat.toDigits_ne_nil hg.symm

/-! ## The double colon -/

theorem splitDoubleColon?_cons {c : Char} {cs : List Char} (h : c = ':' → cs.head? ≠ some ':') :
    splitDoubleColon? (c :: cs) = (splitDoubleColon? cs).map fun p => (c :: p.1, p.2) := by
  conv => lhs; unfold splitDoubleColon?
  split
  · next heq =>
    obtain ⟨rfl, rfl⟩ := List.cons.inj heq
    exact absurd rfl (h rfl)
  · next heq =>
    obtain ⟨rfl, rfl⟩ := List.cons.inj heq
    rfl
  · next heq => cases heq

theorem splitDoubleColon?_append {part : List Char} (h : ':' ∉ part) (rest : List Char) :
    splitDoubleColon? (part ++ rest) = (splitDoubleColon? rest).map fun p => (part ++ p.1, p.2) := by
  induction part with
  | nil => exact Option.map_id'.symm
  | cons c cs ih =>
    obtain ⟨hc, hcs⟩ := not_or.mp (mt List.mem_cons.mpr h)
    rw [List.cons_append, splitDoubleColon?_cons fun heq => absurd heq.symm hc, ih hcs, Option.map_map]
    rfl

theorem joined_singleton (g : Nat) : joined [g] = Nat.toDigits 16 g := List.intercalate_singleton

theorem joined_cons_cons (g next : Nat) (groups : List Nat) :
    joined (g :: next :: groups) = Nat.toDigits 16 g ++ ':' :: joined (next :: groups) := by
  unfold joined
  rw [List.map_cons, List.map_cons, List.intercalate_cons_cons, List.append_assoc]
  rfl

theorem head?_joined_ne_colon (g : Nat) (groups : List Nat) (rest : List Char) :
    (joined (g :: groups) ++ rest).head? ≠ some ':' := by
  obtain ⟨c, cs, hdigits⟩ := List.exists_cons_of_ne_nil (Nat.toDigits_ne_nil (n := g) (b := 16))
  have hc : c ≠ ':' := by
    rintro rfl
    exact not_mem_toDigits (by decide) g (hdigits ▸ List.mem_cons_self)
  cases groups with
  | nil =>
    rw [joined_singleton, hdigits]
    exact mt Option.some.inj hc
  | cons next groups =>
    rw [joined_cons_cons, hdigits]
    exact mt Option.some.inj hc

/-- No double colon stands in groups or where they end. -/
theorem splitDoubleColon?_joined (groups : List Nat) (rest : List Char) :
    splitDoubleColon? (joined groups ++ rest) =
      (splitDoubleColon? rest).map fun p => (joined groups ++ p.1, p.2) := by
  induction groups with
  | nil => exact Option.map_id'.symm
  | cons g groups ih =>
    have hg : ':' ∉ Nat.toDigits 16 g := not_mem_toDigits (by decide) g
    cases groups with
    | nil =>
      rw [joined_singleton]
      exact splitDoubleColon?_append hg rest
    | cons next groups =>
      rw [joined_cons_cons, List.append_assoc, splitDoubleColon?_append hg, List.cons_append,
        splitDoubleColon?_cons fun _ => head?_joined_ne_colon next groups rest, ih]
      simp only [Option.map_map, Function.comp_def, List.append_assoc, List.cons_append]

/-! ## The run that is left out -/

theorem take_zeros (groups : List Nat) : groups.take (zeros groups) = List.replicate (zeros groups) 0 := by
  induction groups with
  | nil => rfl
  | cons g groups ih =>
    unfold zeros at ih ⊢
    rw [List.takeWhile_cons]
    split
    · next hzero =>
      rw [List.length_cons, List.take_succ_cons, List.replicate_succ, ih, of_decide_eq_true hzero]
    · rfl

/-- What is left out are zeros. -/
theorem longestRun_zeros (groups : List Nat) :
    (groups.drop (longestRun groups).1).take (longestRun groups).2 =
      List.replicate (longestRun groups).2 0 := by
  unfold longestRun
  refine List.foldlRecOn (motive := fun best : Nat × Nat =>
    (groups.drop best.1).take best.2 = List.replicate best.2 0) _ _ rfl fun best hbest i _ => ?_
  dsimp only
  split
  · exact take_zeros (groups.drop i)
  · exact hbest

theorem toList_join (groups : List Nat) :
    (":".intercalate (groups.map groupText)).toList = joined groups := by
  rw [String.toList_intercalate, List.map_map]
  refine congrArg _ (List.map_congr_left fun g _ => ?_)
  exact String.toList_ofList

theorem mem_of_mem_joined {groups : List Nat} {c : Char} (h : c ∈ joined groups) :
    c ∈ "0123456789abcdef:".toList := by
  rcases of_mem_intercalate h with rfl | ⟨part, hpart, hc⟩
  · decide
  · obtain ⟨n, -, rfl⟩ := List.mem_map.mp hpart
    exact List.mem_append_left [':'] (Numeral.mem_of_mem_toDigits (by decide) (by decide) hc)

theorem mem_of_mem_text6 {groups : List Nat} {c : Char} (h : c ∈ (text6 groups).toList) :
    c ∈ "0123456789abcdef:".toList := by
  unfold text6 at h
  dsimp only at h
  split at h
  · rw [toList_join] at h
    exact mem_of_mem_joined h
  · rw [String.toList_append, String.toList_append, toList_join, toList_join] at h
    rcases List.mem_append.mp h with h | h
    · rcases List.mem_append.mp h with h | h
      · exact mem_of_mem_joined h
      · have hcolon : ∀ d ∈ "::".toList, d ∈ "0123456789abcdef:".toList :=
          List.all_iff_forall_prop.mp (by decide)
        exact hcolon c h
    · exact mem_of_mem_joined h

/-- What the run leaves of the groups, with the run put in again. -/
theorem parse6?_shortened {high low : List Nat} {missing : Nat} (hpos : 0 < missing)
    (hlength : high.length + missing + low.length = 8)
    (hhigh : ∀ g ∈ high, g < 65536) (hlow : ∀ g ∈ low, g < 65536) :
    parse6? (joined high ++ ':' :: ':' :: joined low) =
      some (high ++ List.replicate missing 0 ++ low) := by
  have hsplit : splitDoubleColon? (joined high ++ ':' :: ':' :: joined low) =
      some (joined high, joined low) := by
    rw [splitDoubleColon?_joined]
    exact congrArg (fun before => some (before, joined low)) (List.append_nil _)
  have hmissing : 8 - high.length - low.length = missing := by omega
  unfold parse6?
  rw [hsplit]
  dsimp only
  rw [parts_joined, parts_joined, mapM_group? hhigh, groups?_toDigits hlow]
  show (if high.length + low.length ≤ 7 then _ else none) = _
  rw [if_pos (by omega), hmissing]
  rfl

theorem parse6?_joined {groups : List Nat} (hlength : groups.length = 8) (h : ∀ g ∈ groups, g < 65536) :
    parse6? (joined groups) = some groups := by
  have hsplit : splitDoubleColon? (joined groups) = none := by
    rw [← List.append_nil (joined groups), splitDoubleColon?_joined]
    rfl
  unfold parse6?
  rw [hsplit]
  dsimp only
  rw [parts_joined, groups?_toDigits h]
  exact Option.filter_eq_some_iff.mpr ⟨rfl, decide_eq_true hlength⟩

/-- The text of an address of version 6 is read back. -/
theorem parse6?_text6 {groups : List Nat} (hlength : groups.length = 8) (h : ∀ g ∈ groups, g < 65536) :
    parse6? (text6 groups).toList = some groups := by
  have hrun := longestRun_zeros groups
  unfold text6
  dsimp only
  split
  · rw [toList_join]
    exact parse6?_joined hlength h
  · next start missing hpos heq =>
    rw [heq] at hrun
    dsimp only at hrun
    have hgroups : groups.take start ++ List.replicate missing 0 ++ groups.drop (start + missing) =
        groups := by
      rw [← hrun, List.append_assoc, ← List.drop_drop, List.take_append_drop, List.take_append_drop]
    have hlengths := congrArg List.length hgroups
    rw [List.length_append, List.length_append, List.length_replicate, hlength] at hlengths
    have hread := parse6?_shortened (Nat.pos_of_ne_zero hpos) hlengths
      (fun g hg => h g (List.mem_of_mem_take hg)) (fun g hg => h g (List.mem_of_mem_drop hg))
    rw [String.toList_append, String.toList_append, toList_join, toList_join, List.append_assoc]
    rwa [hgroups] at hread

end Credential.Ip
