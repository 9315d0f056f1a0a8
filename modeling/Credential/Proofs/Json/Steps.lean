import Credential.Proofs.Json.Pointer
/-!
# Credential.Proofs.Json.Steps — steps into a document and the texts they write

A way into a document is a list of steps, each to the member of a name or to the item of an index. Taken from
the root the steps lead to a place; written one after the other, from the empty text on, they give its text.
The text spells the tokens of the steps (`Pointer.Spells`): it is split and read back into them, whatever
characters the names have, and it leads through every document as the tokens do one by one (`Json.Reaches`).
So steps of different tokens never write the same text (`Pointer.spells_written`).
-/

namespace Credential

/-! ## Following tokens -/

/-- Following some tokens from a document ends at a value. A token leads to the member that it names of an
object, or to the item of an array if it is the decimal numeral of the item's index; it leads nowhere else. -/
inductive Json.Reaches : Json → List String → Json → Prop
  | here (document : Json) : Reaches document [] document
  | member {members : List (String × Json)} {key : String} {next value : Json} {rest : List String} :
    Json.find? members key = some next → Reaches next rest value →
    Reaches (.object members) (key :: rest) value
  | item {items : List Json} {i : Nat} {next value : Json} {rest : List String} :
    items[i]? = some next → Reaches next rest value →
    Reaches (.array items) (Nat.repr i :: rest) value

namespace Json

theorem follow?_of_reaches {document value : Json} {tokens : List String}
    (h : document.Reaches tokens value) : document.follow? tokens = some value := by
  induction h with
  | here => rfl
  | member hfind _ ih => exact (follow?_of_find? hfind _).trans ih
  | item hitem _ ih => exact (follow?_of_getElem? hitem _).trans ih

theorem reaches_of_follow? {document value : Json} {tokens : List String}
    (h : document.follow? tokens = some value) : document.Reaches tokens value := by
  induction tokens generalizing document with
  | nil =>
    cases h
    exact .here _
  | cons token rest ih =>
    obtain ⟨next, hstep, hrest⟩ := Option.bind_eq_some_iff.mp h
    cases document with
    | object members => exact .member hstep (ih hrest)
    | array items =>
      -- a token with a value in an array is the numeral of an index
      obtain ⟨i, hindex, hitem⟩ := Option.bind_eq_some_iff.mp hstep
      obtain rfl := index?_eq_some_iff.mp hindex
      exact .item hitem (ih hrest)
    | _ => cases hstep

theorem follow?_eq_some_iff {document value : Json} {tokens : List String} :
    document.follow? tokens = some value ↔ document.Reaches tokens value :=
  ⟨reaches_of_follow?, follow?_of_reaches⟩

end Json

/-! ## What a text spells -/

namespace Pointer

/-- A text is the JSON Pointer of some tokens. Split at its slashes and unescaped it gives the tokens, and it
has no `~` but those of its escapes; evaluated in any document it reaches the value that the tokens reach one
by one, and nothing if they reach none. -/
structure Spells (text : String) (tokens : List String) : Prop where
  read : ofText? text = some ⟨tokens⟩
  escaped : Text.Followed '~' ['1', '0'] text.toList
  reached : ∀ document value : Json, document.resolve? text = some value ↔ document.Reaches tokens value
  nowhere : ∀ document : Json, document.resolve? text = none ↔ ∀ value, ¬ document.Reaches tokens value

theorem spells_text (p : Pointer) : Spells p.text p.tokens where
  read := ofText?_text p
  escaped := followed_text p
  reached document value := by
    rw [Json.resolve?_text]
    exact Json.follow?_eq_some_iff
  nowhere document := by
    rw [Json.resolve?_text, Json.at?, Option.eq_none_iff_forall_ne_some]
    exact forall_congr' fun value => not_congr Json.follow?_eq_some_iff

/-! ## Steps -/

/-- A step into a document: to the member of a name or to the item of an index. -/
inductive Step where
  | member (key : String)
  | item (i : Nat)
  deriving DecidableEq

namespace Step

/-- The token of a step: the name itself, or the decimal numeral of the index. -/
def token : Step → String
  | .member key => key
  | .item i => Nat.repr i

/-- The place that a step leads to. -/
def enter (place : Pointer) : Step → Pointer
  | .member key => place.push key
  | .item i => place.pushIndex i

/-- The text that a step continues: a name is escaped, an index is written as it is. -/
def write (base : String) : Step → String
  | .member key => below base key
  | .item i => base ++ "/" ++ Nat.repr i

theorem tokens_enter (place : Pointer) (step : Step) :
    (step.enter place).tokens = place.tokens ++ [step.token] := by
  cases step with
  | member key => rfl
  | item i => rfl

theorem text_enter (place : Pointer) (step : Step) : (step.enter place).text = step.write place.text := by
  cases step with
  | member key => exact text_push place key
  | item i => exact text_pushIndex place i

end Step

section Steps

variable (place : Pointer) (steps : List Step)

theorem tokens_foldl_enter :
    (steps.foldl Step.enter place).tokens = place.tokens ++ steps.map Step.token := by
  induction steps generalizing place with
  | nil => exact (List.append_nil _).symm
  | cons step steps ih =>
    rw [List.foldl_cons, ih, Step.tokens_enter, List.append_assoc, List.map_cons, List.singleton_append]

theorem text_foldl_enter : (steps.foldl Step.enter place).text = steps.foldl Step.write place.text := by
  induction steps generalizing place with
  | nil => rfl
  | cons step steps ih => rw [List.foldl_cons, ih, Step.text_enter, List.foldl_cons]

end Steps

/-- Whatever the names are, what the steps write from the empty text on is the text of the place that they
lead to from the root, and it spells their tokens. Two lists of steps write the same exactly if their tokens
are the same. -/
theorem spells_written (steps : List Step) :
    steps.foldl Step.write "" = (steps.foldl Step.enter root).text ∧
    Spells (steps.foldl Step.write "") (steps.map Step.token) ∧
    ∀ others : List Step, steps.foldl Step.write "" = others.foldl Step.write "" ↔
      steps.map Step.token = others.map Step.token := by
  have hwritten : ∀ steps : List Step, steps.foldl Step.write "" = (steps.foldl Step.enter root).text :=
    fun steps => (text_foldl_enter root steps).symm
  have htokens : ∀ steps : List Step, steps.foldl Step.enter root = ⟨steps.map Step.token⟩ :=
    fun steps => congrArg Pointer.mk (tokens_foldl_enter root steps)
  refine ⟨hwritten steps, ?_, fun others => ?_⟩
  · rw [hwritten, htokens]
    exact spells_text _
  · rw [hwritten, hwritten, htokens, htokens, text_injective.eq_iff, Pointer.mk.injEq]

example : [Step.member "a/b", .member "~1", .member "", .item 30].foldl Step.write "" = "/a~1b/~01//30" := by
  decide

end Pointer

end Credential
