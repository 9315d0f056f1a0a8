import Credential.Json.Pointer
import Credential.Proofs.Json.Members
import Credential.Proofs.Numeral
import Credential.Proofs.Text
/-!
# Credential.Proofs.Json.Pointer — places and their texts

The text of a place is read back as the place, whatever its tokens are, and the numeral of an index, and no
other token, is read as the index. Following one place after another is following the two in one.
-/

namespace Credential

/-! ## Parts of a text -/

namespace Text

theorem splitAt_of_not_mem {mark : Char} {part : List Char} (h : mark ∉ part) :
    splitAt mark part = [part] := by
  induction part with
  | nil => rfl
  | cons c cs ih =>
    obtain ⟨hc, hcs⟩ := not_or.mp (mt List.mem_cons.mpr h)
    rw [splitAt, if_neg (Ne.symm hc), ih hcs]

theorem splitAt_append {mark : Char} {part : List Char} (h : mark ∉ part) (rest : List Char) :
    splitAt mark (part ++ mark :: rest) = part :: splitAt mark rest := by
  induction part with
  | nil => rw [List.nil_append, splitAt, if_pos rfl]
  | cons c cs ih =>
    obtain ⟨hc, hcs⟩ := not_or.mp (mt List.mem_cons.mpr h)
    rw [List.cons_append, splitAt, if_neg (Ne.symm hc), ih hcs]

end Text

/-! ## Tokens -/

namespace Pointer

/-- Where each `~` was written `~0` there is no other `~`. -/
theorem followed_tilde (cs : List Char) : Text.Followed '~' ['0'] (Text.replaceChar '~' ['~', '0'] cs) :=
  Text.followed_replaceChar (by decide) (.inl rfl)

/-- What is escaped has no `~` but those of its escapes. -/
theorem followed_escapeChars (cs : List Char) : Text.Followed '~' ['1', '0'] (escapeChars cs) :=
  Text.followed_replaceChar (by decide) (.inr ⟨by decide, followed_tilde cs⟩)

/-- What is escaped is read back: before `/` was written `~1` there was no `~1`, so all that is read as `/`
was one. -/
theorem unescapeChars_escapeChars (cs : List Char) : unescapeChars (escapeChars cs) = cs := by
  have hslash : Text.replacePair '~' '1' '/' (escapeChars cs) = Text.replaceChar '~' ['~', '0'] cs :=
    Text.replacePair_replaceChar (by decide) (by decide) (.inr (followed_tilde cs))
  rw [unescapeChars, hslash]
  exact Text.replacePair_replaceChar (by decide) List.not_mem_nil (.inl rfl)

-- In the other order `/` and `~1` would be written alike.
example : Text.replaceChar '~' ['~', '0'] (Text.replaceChar '/' ['~', '1'] ['/']) =
    Text.replaceChar '~' ['~', '0'] (Text.replaceChar '/' ['~', '1'] ['~', '1']) := by decide

/-- What is escaped has no slash. -/
theorem slash_not_mem_escapeChars (cs : List Char) : '/' ∉ escapeChars cs :=
  Text.not_mem_replaceChar (by decide) _

theorem toList_escape (token : String) : (escape token).toList = escapeChars token.toList :=
  String.toList_ofList

theorem toList_foldl_below (base : String) (tokens : List String) :
    (tokens.foldl below base).toList =
      base.toList ++ tokens.flatMap fun t => '/' :: escapeChars t.toList := by
  induction tokens generalizing base with
  | nil => exact (List.append_nil _).symm
  | cons token tokens ih =>
    rw [List.foldl_cons, ih, below, String.toList_append, String.toList_append, toList_escape,
      List.flatMap_cons, List.append_assoc, List.append_assoc]
    rfl

theorem toList_text (p : Pointer) :
    p.text.toList = p.tokens.flatMap fun t => '/' :: escapeChars t.toList :=
  toList_foldl_below "" p.tokens

theorem splitAt_tokens (token : String) (tokens : List String) :
    Text.splitAt '/' (escapeChars token.toList ++
        tokens.flatMap fun t => '/' :: escapeChars t.toList) =
      (token :: tokens).map fun t => escapeChars t.toList := by
  induction tokens generalizing token with
  | nil =>
    rw [List.flatMap_nil, List.append_nil]
    exact Text.splitAt_of_not_mem (slash_not_mem_escapeChars _)
  | cons next tokens ih =>
    rw [List.flatMap_cons, List.cons_append, Text.splitAt_append (slash_not_mem_escapeChars _), ih]
    rfl

/-- The text of a place is read back as the place. -/
theorem ofText?_text (p : Pointer) : ofText? p.text = some p := by
  obtain ⟨tokens⟩ := p
  unfold ofText?
  rw [toList_text]
  cases tokens with
  | nil => rfl
  | cons token tokens =>
    have hmap : ((token :: tokens).map fun t => escapeChars t.toList).map
        (fun piece => String.ofList (unescapeChars piece)) = token :: tokens := by
      rw [List.map_map]
      conv => rhs; rw [← List.map_id (token :: tokens)]
      apply List.map_congr_left
      intro t _
      show String.ofList (unescapeChars (escapeChars t.toList)) = t
      rw [unescapeChars_escapeChars, String.ofList_toList]
    show some (Pointer.mk ((Text.splitAt '/' (escapeChars token.toList ++
      tokens.flatMap fun t => '/' :: escapeChars t.toList)).map _)) = _
    rw [splitAt_tokens, hmap]

end Pointer

/-! ## Texts of places -/

namespace Pointer

theorem append_assoc (p q s : Pointer) : p ++ q ++ s = p ++ (q ++ s) :=
  congrArg Pointer.mk (List.append_assoc p.tokens q.tokens s.tokens)

theorem append_root (p : Pointer) : p ++ root = p :=
  congrArg Pointer.mk (List.append_nil p.tokens)

theorem append_push (p q : Pointer) (token : String) : (p ++ q).push token = p ++ q.push token :=
  append_assoc p q ⟨[token]⟩

theorem append_pushIndex (p q : Pointer) (i : Nat) : (p ++ q).pushIndex i = p ++ q.pushIndex i :=
  append_push p q (Nat.repr i)

/-- The text of a place that is reached by way of another one goes on where the text of that one ends. -/
theorem text_append (p q : Pointer) : (p ++ q).text = p.text ++ q.text := by
  apply String.toList_inj.mp
  rw [String.toList_append, toList_text, toList_text, toList_text, ← List.flatMap_append]
  rfl

theorem text_push (p : Pointer) (token : String) :
    (p.push token).text = p.text ++ "/" ++ escape token := by
  rw [text, push, List.foldl_concat]
  rfl

/-- A numeral has nothing to escape. -/
theorem escape_repr (i : Nat) : escape (Nat.repr i) = Nat.repr i := by
  have hnot : ∀ c : Char, c.isDigit = false → c ∉ (Nat.repr i).toList := by
    intro c hc hmem
    rw [Nat.toList_repr] at hmem
    rw [Nat.isDigit_of_mem_toDigits (by decide) (by decide) hmem] at hc
    cases hc
  rw [escape, escapeChars, Text.replaceChar_of_not_mem (hnot '~' (by decide)),
    Text.replaceChar_of_not_mem (hnot '/' (by decide)), String.ofList_toList]

theorem text_pushIndex (p : Pointer) (i : Nat) : (p.pushIndex i).text = p.text ++ "/" ++ Nat.repr i := by
  rw [pushIndex, text_push, escape_repr]

/-- The text of a place has no `~` but those of its escapes. -/
theorem followed_text (p : Pointer) : Text.Followed '~' ['1', '0'] p.text.toList := by
  rw [toList_text]
  induction p.tokens with
  | nil => trivial
  | cons token tokens ih =>
    rw [List.flatMap_cons, List.cons_append]
    exact ⟨fun heq => absurd heq (by decide), (followed_escapeChars _).append ih⟩

/-- Different places have different texts. -/
theorem text_injective : Function.Injective text := by
  intro p q h
  have hread := ofText?_text p
  rw [h, ofText?_text] at hread
  exact (Option.some.inj hread).symm

end Pointer

/-- The value that a text leads to as a JSON Pointer. -/
def Json.resolve? (j : Json) (text : String) : Option Json := (Pointer.ofText? text).bind j.at?

theorem Json.resolve?_text (j : Json) (p : Pointer) : j.resolve? p.text = j.at? p := by
  rw [resolve?, Pointer.ofText?_text, Option.bind_some]

/-! ## Indices -/

namespace Json

theorem index?_of_isCanonical {token : String} (h : Numeral.IsCanonical token.toList) :
    index? token = some (Numeral.decimal token.toList) := by
  have hdigits : token.toList.all Char.isDigit = true := List.all_eq_true.mpr h.isDigit
  unfold index?
  split
  · next hnil => exact absurd hnil h.ne_nil
  · next rest hzero =>
    have hone := h.noLeadingZero (by rw [hzero]; rfl)
    rw [hzero] at hone ⊢
    obtain rfl : rest = [] := (List.cons.inj hone).2
    rfl
  · rw [if_pos hdigits]

theorem isCanonical_of_index? {token : String} {i : Nat} (h : index? token = some i) :
    Numeral.IsCanonical token.toList ∧ Numeral.decimal token.toList = i := by
  unfold index? at h
  split at h
  · cases h
  · next rest hzero =>
    cases rest with
    | cons c cs => cases h
    | nil =>
      cases h
      rw [hzero]
      exact ⟨Numeral.isCanonical_toDigits 0, rfl⟩
  · next hnil hzero =>
    split at h
    · next hdigits =>
      refine ⟨⟨hnil, List.all_eq_true.mp hdigits, fun hhead => ?_⟩, Option.some.inj h⟩
      obtain ⟨rest, hrest⟩ := List.head?_eq_some_iff.mp hhead
      exact absurd hrest (hzero rest)
    · cases h

/-- A token stands for an index exactly if it is the numeral of the index. -/
theorem index?_eq_some_iff {token : String} {i : Nat} : index? token = some i ↔ token = Nat.repr i := by
  constructor
  · intro h
    obtain ⟨hcanonical, hvalue⟩ := isCanonical_of_index? h
    rw [← String.toList_inj, Nat.toList_repr, ← hvalue, Numeral.toDigits_decimal hcanonical]
  · rintro rfl
    have hcanonical : Numeral.IsCanonical (Nat.repr i).toList := by
      rw [Nat.toList_repr]
      exact Numeral.isCanonical_toDigits i
    rw [index?_of_isCanonical hcanonical, Nat.toList_repr, Numeral.decimal_toDigits]

/-- The numeral of an index is read back as the index. -/
theorem index?_repr (i : Nat) : index? (Nat.repr i) = some i := index?_eq_some_iff.mpr rfl

/-! ## Following places -/

theorem follow?_append (j : Json) (first rest : List String) :
    j.follow? (first ++ rest) = (j.follow? first).bind (follow? · rest) := by
  induction first generalizing j with
  | nil => rfl
  | cons t ts ih =>
    show (j.step? t).bind _ = ((j.step? t).bind _).bind _
    cases j.step? t with
    | none => rfl
    | some inner => exact ih inner

theorem follow?_of_find? {members : List (String × Json)} {key : String} {value : Json}
    (h : find? members key = some value) (rest : List String) :
    (Json.object members).follow? (key :: rest) = value.follow? rest := by
  show (find? members key).bind _ = _
  rw [h]
  rfl

theorem follow?_of_getElem? {items : List Json} {i : Nat} {item : Json} (h : items[i]? = some item)
    (rest : List String) :
    (Json.array items).follow? (Nat.repr i :: rest) = item.follow? rest := by
  show ((index? (Nat.repr i)).bind fun i => items[i]?).bind _ = _
  rw [index?_repr, Option.bind_some, h]
  rfl

/-- Where there is a string, no place lies further down. -/
theorem follow?_string (text : String) (tokens : List String) (items : List Json) :
    (Json.string text).follow? tokens ≠ some (.array items) := by
  cases tokens with
  | nil => intro h; cases h
  | cons t ts => intro h; cases h

theorem distinctKeys_of_follow? {j part : Json} {tokens : List String} (hd : j.distinctKeys = true)
    (h : j.follow? tokens = some part) : part.distinctKeys = true := by
  induction tokens generalizing j with
  | nil =>
    cases h
    exact hd
  | cons t ts ih =>
    obtain ⟨next, hstep, hrest⟩ := Option.bind_eq_some_iff.mp h
    refine ih ?_ hrest
    cases j with
    | object members => exact distinctKeys_of_find? hd hstep
    | array items =>
      obtain ⟨i, -, hi⟩ := Option.bind_eq_some_iff.mp hstep
      exact distinctKeys_array.mp hd next (List.mem_of_getElem? hi)
    | _ => cases hstep

theorem at?_append (j : Json) (p q : Pointer) : j.at? (p ++ q) = (j.at? p).bind (·.at? q) :=
  follow?_append j p.tokens q.tokens

/-! ## One step further -/

section Push

variable {document value : Json} {place : Pointer}

theorem at?_push (h : document.at? place = some value) (token : String) :
    document.at? (place.push token) = value.step? token := by
  have hstep : value.at? ⟨[token]⟩ = value.step? token := Option.bind_fun_some _
  have happend : document.at? (place.push token) = (document.at? place).bind (·.at? ⟨[token]⟩) :=
    at?_append document place ⟨[token]⟩
  rw [happend, h, Option.bind_some, hstep]

theorem at?_push_object {members : List (String × Json)}
    (h : document.at? place = some (.object members)) (key : String) :
    document.at? (place.push key) = find? members key :=
  at?_push h key

theorem at?_pushIndex {items : List Json} (h : document.at? place = some (.array items)) (i : Nat) :
    document.at? (place.pushIndex i) = items[i]? := by
  rw [Pointer.pushIndex, at?_push h]
  show (index? (Nat.repr i)).bind (fun i => items[i]?) = items[i]?
  rw [index?_repr, Option.bind_some]

end Push

end Json

end Credential
