import Credential.Text
import Mathlib.Data.Bool.AllAny
import Mathlib.Data.List.DropRight
/-!
# Credential.Proofs.Text — the parts of a text

Cutting a text at a character is splitting a list at a value. Parts are made of characters of the text, but
not of those that it is cut at. What is taken up to a mark, or dropped at the end, is told from the marks. A
trimmed text is empty exactly if the text has nothing but blanks. A character that was replaced by a pair is
put back if the text had no such pair before.
-/

namespace Credential

theorem of_mem_splitOnP {α : Type} {p : α → Bool} {xs part : List α} (h : part ∈ xs.splitOnP p) :
    ∀ x ∈ part, x ∈ xs ∧ p x = false := by
  induction xs generalizing part with
  | nil =>
    rw [List.splitOnP_nil, List.mem_singleton] at h
    subst h
    exact fun _ hx => absurd hx List.not_mem_nil
  | cons y ys ih =>
    have hlater : ∀ piece ∈ ys.splitOnP p, ∀ x ∈ piece, x ∈ y :: ys ∧ p x = false :=
      fun piece hp x hx => ⟨List.mem_cons_of_mem _ (ih hp x hx).1, (ih hp x hx).2⟩
    rw [List.splitOnP_cons_eq_if_modifyHead] at h
    split at h
    · rcases List.mem_cons.mp h with rfl | h
      · exact fun _ hx => absurd hx List.not_mem_nil
      · exact hlater part h
    · next hy =>
      obtain ⟨first, rest, hparts⟩ := List.exists_cons_of_ne_nil (List.splitOnP_ne_nil p ys)
      rw [hparts] at h hlater
      rcases List.mem_cons.mp h with rfl | h
      · -- the first part goes on with the character
        intro x hx
        rcases List.mem_cons.mp hx with rfl | hx
        · exact ⟨List.mem_cons_self, eq_false_of_ne_true hy⟩
        · exact hlater first List.mem_cons_self x hx
      · exact hlater part (List.mem_cons_of_mem _ h)

theorem of_mem_intercalate {α : Type} {mark x : α} {parts : List (List α)}
    (h : x ∈ [mark].intercalate parts) : x = mark ∨ ∃ part ∈ parts, x ∈ part := by
  induction parts with
  | nil => cases h
  | cons part rest ih =>
    cases rest with
    | nil =>
      rw [List.intercalate_singleton] at h
      exact .inr ⟨part, List.mem_cons_self, h⟩
    | cons next rest =>
      rw [List.intercalate_cons_cons, List.append_assoc, List.mem_append, List.mem_append,
        List.mem_singleton] at h
      rcases h with h | rfl | h
      · exact .inr ⟨part, List.mem_cons_self, h⟩
      · exact .inl rfl
      · exact (ih h).imp_right fun ⟨later, hlater, hx⟩ => ⟨later, List.mem_cons_of_mem _ hlater, hx⟩

/-! ## Up to a mark -/

section Mark

variable {α : Type} {p : α → Bool} {xs : List α} {mark : α}
variable (hxs : ∀ x ∈ xs, p x = true) (hmark : p mark = false)

include hxs hmark

theorem takeWhile_append_mark (rest : List α) : (xs ++ mark :: rest).takeWhile p = xs := by
  rw [List.takeWhile_append_of_pos hxs, List.takeWhile_cons_of_neg (ne_true_of_eq_false hmark),
    List.append_nil]

theorem dropWhile_append_mark (rest : List α) : (xs ++ mark :: rest).dropWhile p = mark :: rest := by
  rw [List.dropWhile_append_of_pos hxs, List.dropWhile_cons_of_neg (ne_true_of_eq_false hmark)]

end Mark

/-! ## Both ends of a text -/

/-- A text does not start with what is no prefix of it. -/
theorem append_ne {first whole : String} (h : first.toList.isPrefixOf whole.toList = false)
    (rest : String) : first ++ rest ≠ whole := by
  rintro rfl
  rw [String.toList_append, List.isPrefixOf_iff_prefix.mpr (List.prefix_append _ _)] at h
  cases h

section End

variable {α : Type} {p : α → Bool} {front : List α}

/-- What is dropped at the end is dropped from what comes last, if nothing is dropped before it. -/
theorem rdropWhile_append (hfront : front.rdropWhile p = front) (rest : List α) :
    (front ++ rest).rdropWhile p = front ++ rest.rdropWhile p := by
  induction rest using List.reverseRecOn with
  | nil => rw [List.append_nil, List.rdropWhile_nil, List.append_nil, hfront]
  | append_singleton rest x ih =>
    rw [← List.append_assoc, List.rdropWhile_concat, List.rdropWhile_concat, ih]
    split
    · rfl
    · rw [List.append_assoc]

/-- Nothing is dropped if something stays at the end. -/
theorem rdropWhile_append_of_forall (front : List α) {last : List α} (hne : last ≠ [])
    (h : ∀ x ∈ last, p x = false) : (front ++ last).rdropWhile p = front ++ last := by
  refine List.rdropWhile_eq_self_iff.mpr fun hl => ?_
  rw [List.getLast_append_of_ne_nil hl hne]
  exact ne_true_of_eq_false (h _ (List.getLast_mem hne))

end End

/-! ## Blanks -/

namespace Text

/-- A text with a character that is no blank. -/
def IsReadable (text : String) : Prop := ∃ c ∈ text.toList, isBlank c = false

instance (text : String) : Decidable (IsReadable text) :=
  List.decidableBEx (fun c => isBlank c = false) text.toList

end Text

/-! ## Between marks -/

namespace Text

theorem splitAt_eq_splitOn (mark : Char) (cs : List Char) : splitAt mark cs = cs.splitOn mark := by
  induction cs with
  | nil => rfl
  | cons c cs ih =>
    obtain ⟨first, rest, hparts⟩ := List.exists_cons_of_ne_nil (List.splitOn_ne_nil mark cs)
    rw [List.splitOn_cons_eq_if_modifyHead, splitAt, ih, hparts]
    by_cases hc : c = mark
    · rw [if_pos hc, if_pos (beq_iff_eq.mpr hc)]
    · rw [if_neg hc, if_neg (mt beq_iff_eq.mp hc)]
      rfl

end Text

/-! ## Replacements -/

namespace Text

section Character

variable {mark : Char}

theorem replaceChar_cons_self (others cs : List Char) :
    replaceChar mark others (mark :: cs) = others ++ replaceChar mark others cs := by
  rw [replaceChar, List.flatMap_cons, if_pos rfl, replaceChar]

theorem replaceChar_cons_of_ne {c : Char} (h : c ≠ mark) (others cs : List Char) :
    replaceChar mark others (c :: cs) = c :: replaceChar mark others cs := by
  rw [replaceChar, List.flatMap_cons, if_neg h, replaceChar, List.singleton_append]

/-- Nothing is replaced where the character does not stand. -/
theorem replaceChar_of_not_mem {cs : List Char} (h : mark ∉ cs) (others : List Char) :
    replaceChar mark others cs = cs := by
  induction cs with
  | nil => rfl
  | cons c cs ih =>
    obtain ⟨hc, hcs⟩ := not_or.mp (mt List.mem_cons.mpr h)
    rw [replaceChar_cons_of_ne (Ne.symm hc), ih hcs]

theorem not_mem_replaceChar {others : List Char} (h : mark ∉ others) (cs : List Char) :
    mark ∉ replaceChar mark others cs := by
  intro hmem
  obtain ⟨c, -, hc⟩ := List.mem_flatMap.mp hmem
  split at hc
  · exact h hc
  · next hne => exact hne (List.mem_singleton.mp hc).symm

theorem head?_replaceChar (first : Char) (others cs : List Char) :
    (replaceChar mark (first :: others) cs).head? = cs.head?.map fun c => if c = mark then first else c := by
  cases cs with
  | nil => rfl
  | cons c cs =>
    rw [List.head?_cons, Option.map_some]
    by_cases hc : c = mark
    · subst hc
      rw [replaceChar_cons_self, if_pos rfl]
      rfl
    · rw [replaceChar_cons_of_ne hc, if_neg hc]
      rfl

end Character

/-- Wherever a given character stands, one of some others comes next. -/
def Followed (mark : Char) (others : List Char) : List Char → Prop
  | [] => True
  | c :: cs => (c = mark → ∃ d ∈ others, cs.head? = some d) ∧ Followed mark others cs

theorem Followed.append {mark : Char} {others cs rest : List Char} (h : Followed mark others cs)
    (hrest : Followed mark others rest) : Followed mark others (cs ++ rest) := by
  induction cs with
  | nil => exact hrest
  | cons c cs ih =>
    refine ⟨fun heq => ?_, ih h.2⟩
    obtain ⟨d, hd, hhead⟩ := h.1 heq
    have hlonger : (cs ++ rest).head? = some d := by rw [List.head?_append, hhead, Option.some_or]
    exact ⟨d, hd, hlonger⟩

section Pair

variable {first second mark one : Char} {others cs : List Char}

/-- A replacement by a pair adds the second of it to what may come after the first, be it that all of the first
are replaced or that none is and nothing after them. -/
theorem followed_replaceChar (hsecond : second ≠ first)
    (h : mark = first ∨ mark ∉ others ∧ Followed first others cs) :
    Followed first (second :: others) (replaceChar mark [first, second] cs) := by
  induction cs with
  | nil => trivial
  | cons c cs ih =>
    have hrest := ih (h.imp_right fun hcs => ⟨hcs.1, hcs.2.2⟩)
    by_cases hc : c = mark
    · subst hc
      rw [replaceChar_cons_self]
      exact ⟨fun _ => ⟨second, List.mem_cons_self, rfl⟩, fun heq => absurd heq hsecond, hrest⟩
    · rw [replaceChar_cons_of_ne hc]
      refine ⟨fun heq => ?_, hrest⟩
      rcases h with hmark | ⟨hmark, hcs⟩
      · exact absurd (heq.trans hmark.symm) hc
      · obtain ⟨d, hd, hhead⟩ := hcs.1 heq
        have hne : d ≠ mark := fun hdm => hmark (hdm ▸ hd)
        refine ⟨d, List.mem_cons_of_mem _ hd, ?_⟩
        rw [head?_replaceChar, hhead, Option.map_some, if_neg hne]

theorem replacePair_cons_self (cs : List Char) :
    replacePair first second one (first :: second :: cs) = one :: replacePair first second one cs := by
  rw [replacePair, if_pos ⟨rfl, rfl⟩]

theorem replacePair_cons {c : Char} (h : c = first → cs.head? ≠ some second) :
    replacePair first second one (c :: cs) = c :: replacePair first second one cs := by
  cases cs with
  | nil => rfl
  | cons d cs =>
    have hpair : ¬ (c = first ∧ d = second) := by
      rintro ⟨hc, rfl⟩
      exact h hc rfl
    rw [replacePair, if_neg hpair]

/-- A character that was replaced by a pair is put back, if it is the first of the pair or if the pair did not
stand in the text before. -/
theorem replacePair_replaceChar (hsecond : second ≠ first) (hothers : second ∉ others)
    (h : mark = first ∨ Followed first others cs) :
    replacePair first second mark (replaceChar mark [first, second] cs) = cs := by
  induction cs with
  | nil => rfl
  | cons c cs ih =>
    have hrest := ih (h.imp_right And.right)
    by_cases hc : c = mark
    · subst hc
      rw [replaceChar_cons_self]
      exact (replacePair_cons_self _).trans (congrArg _ hrest)
    · rw [replaceChar_cons_of_ne hc, replacePair_cons, hrest]
      intro heq
      rcases h with hmark | hcs
      · exact absurd (heq.trans hmark.symm) hc
      · -- what comes after the first of the pair is another one, replaced or not
        obtain ⟨d, hd, hhead⟩ := hcs.1 heq
        rw [head?_replaceChar, hhead, Option.map_some, Ne, Option.some_inj]
        split
        · exact hsecond.symm
        · exact fun hds => hothers (hds ▸ hd)

end Pair

end Text

end Credential
