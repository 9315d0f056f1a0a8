import Credential.Client.Error
import Credential.Validation.Payload
/-!
# Credential.Proofs.Failure.Classification — errors found in chains of causes

A chain of causes is classified by its outermost recognised cause. Contexts are never recognised, so a
chain is classified as without the contexts around it (`Cause.classify_inContext`), and a chain in which
nothing is recognised tells all its texts (`Cause.classify_foreign`).

The errors of a fetch and of a payload check show nothing recognised in a chain, although most of them
stand for a failure of a kind of its own. So the two ways from such an error to a failure part: put into a
chain as it is, the error is a general failure. Turned into a failure first, or into the issues it holds,
it comes through any contexts unchanged (`Cause.classify_asRaised`).
-/

namespace Credential

namespace Cause

/-! ## Contexts -/

/-- A chain of causes with messages put around it, the outermost first. -/
def inContext (contexts : List String) (chain : List Cause) : List Cause :=
  contexts.map .foreign ++ chain

theorem findSome?_foreign (texts : List String) : (texts.map foreign).findSome? failure? = none := by
  rw [List.findSome?_eq_none_iff]
  intro cause hc
  obtain ⟨text, -, rfl⟩ := List.mem_map.mp hc
  rfl

/-- Contexts do not count where a cause is recognised. -/
theorem classify_inContext {contexts : List String} {chain : List Cause} {known : Failure}
    (h : chain.findSome? failure? = some known) : classify (inContext contexts chain) = known := by
  have hfound : (inContext contexts chain).findSome? failure? = some known := by
    rw [inContext, List.findSome?_append, findSome?_foreign, Option.none_or, h]
  rw [classify, hfound, Option.getD_some]

/-- A chain in which nothing is recognised is a general failure that tells all its texts. -/
theorem classify_foreign (texts : List String) :
    classify (texts.map foreign) = .general (": ".intercalate texts) := by
  have htexts : (texts.map foreign).map text = texts := by
    rw [List.map_map]
    exact List.map_id texts
  rw [classify, findSome?_foreign, Option.getD_none, chainText, htexts]

theorem inContext_foreign (contexts texts : List String) :
    inContext contexts (texts.map foreign) = (contexts ++ texts).map foreign :=
  List.map_append.symm

end Cause

/-! ## Errors as they are raised -/

namespace ClientError

/-- The texts of an error in a chain: its own, and that of what lies behind it. -/
def texts (e : ClientError) : List String := e.message :: e.inner?.toList

theorem causes_eq (e : ClientError) : e.causes = e.texts.map .foreign := by
  unfold causes texts
  cases e.inner? <;> rfl

/-- The errors that stand for a failure of a kind of its own: there was no answer, the answer has an error
status, or the request was cancelled. -/
inductive Specific : ClientError → Prop where
  | transport (url : String) (cause : Http.TransportError) : Specific (.transport url cause)
  | status (url : String) (code : Option Nat) (text : String) : Specific (.status url code text)
  | cancelled (url : String) : Specific (.cancelled url)

theorem kind_failure_eq_general_iff (e : ClientError) : e.failure.kind = .general ↔ ¬ e.Specific := by
  constructor
  · rintro h (⟨url, cause⟩ | ⟨url, code, text⟩ | ⟨url⟩) <;> cases h
  · intro h
    cases e with
    | transport url cause => exact absurd (.transport url cause) h
    | status url code text => exact absurd (.status url code text) h
    | cancelled url => exact absurd (.cancelled url) h
    | undecodable url => rfl
    | document url cause => rfl
    | config cause => rfl

end ClientError

namespace Cause

open Validation (PayloadError)

/-- What becomes of the errors of a fetch and of a payload check under any contexts, whatever unrecognised
causes lie further down.

* As it is raised, the error of a fetch is a general failure that tells all texts of the chain, so its
  kind is that of the failure it stands for exactly if it is not a specific one. Made into that failure
  first, it is classified as that failure.
* As they are raised, the issues of a payload are a general failure too. By themselves they are a failed
  validation with these issues. -/
theorem classify_asRaised (contexts deeper : List String) :
    (∀ e : ClientError,
      classify (inContext contexts (e.causes ++ deeper.map .foreign)) =
        .general (": ".intercalate (contexts ++ (e.texts ++ deeper))) ∧
      ((classify (inContext contexts (e.causes ++ deeper.map .foreign))).kind = e.failure.kind ↔
        ¬ e.Specific) ∧
      classify (inContext contexts [.failure e.failure]) = e.failure) ∧
    ∀ issues : List Issue,
      classify (inContext contexts (PayloadError.invalid issues).causes) =
        .general (": ".intercalate (contexts ++ [Issue.report issues])) ∧
      classify (inContext contexts [.invalid issues]) = .parse issues := by
  constructor
  · intro e
    have hraised : classify (inContext contexts (e.causes ++ deeper.map .foreign)) =
        .general (": ".intercalate (contexts ++ (e.texts ++ deeper))) := by
      rw [e.causes_eq, ← List.map_append, inContext_foreign, classify_foreign]
    refine ⟨hraised, ?_, classify_inContext rfl⟩
    rw [hraised, ← e.kind_failure_eq_general_iff]
    exact eq_comm
  · intro issues
    refine ⟨?_, classify_inContext rfl⟩
    have hcauses : (PayloadError.invalid issues).causes = [Issue.report issues].map foreign := rfl
    rw [hcauses, inContext_foreign, classify_foreign]

/-- An answer with an error status is a failed request, and issues are a failed validation; neither is found
where the error stands in a chain as it was raised. -/
theorem classify_asRaised_status :
    (classify (ClientError.status "http://u/" (some 500) "oops").causes).kind ≠
        (ClientError.status "http://u/" (some 500) "oops").failure.kind ∧
      (classify (PayloadError.invalid [.plain "/x" "wrong"]).causes).kind ≠ .parse := by
  decide

end Cause

end Credential
