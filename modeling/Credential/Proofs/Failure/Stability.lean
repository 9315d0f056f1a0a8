import Credential.Proofs.Failure.Classification
import Credential.Proofs.Lists
/-!
# Credential.Proofs.Failure.Stability — contexts and repeated classification

A chain of causes is decided by the outermost of its recognised causes (`Outermost`). Messages put around
the chain are recognised as nothing, so they are told only where nothing else is: `classify_eq_of_outermost`
and `classify_of_unrecognised`.

What a chain was classified as may be wrapped and classified again wherever a call returns. One such
boundary changes nothing (`atBoundary_eq`), and so no number of them does (`classify_stable`).
-/

namespace Credential.Cause

/-! ## Recognised causes -/

/-- The causes of a recognised kind, with the failure that each is raised for. -/
inductive Marks : Cause → Failure → Prop where
  | failure (known : Failure) : Marks (.failure known) known
  | cancelled : Marks .cancelled .cancel
  | invalid (issues : List Issue) : Marks (.invalid issues) (.parse issues)
  | http (status : Option Nat) (message : String) :
    Marks (.http status message) (.request status message)
  | custom (message : String) : Marks (.custom message) (.custom message)
  | nonError (detail : String) : Marks (.nonError detail) (.unknown detail)

/-- Whether a cause is of a recognised kind. -/
def Recognised (cause : Cause) : Prop := ∃ known, cause.Marks known

theorem failure?_eq_some_iff {cause : Cause} {known : Failure} :
    cause.failure? = some known ↔ cause.Marks known := by
  constructor
  · intro h
    cases cause with
    | foreign text => cases h
    | _ =>
      cases h
      constructor
  · rintro (_ | _ | _ | _ | _ | _) <;> rfl

theorem failure?_eq_none_iff {cause : Cause} : cause.failure? = none ↔ ¬ cause.Recognised := by
  rw [Option.eq_none_iff_forall_ne_some]
  simp only [Recognised, not_exists, ne_eq, failure?_eq_some_iff]

/-- A cause in a chain that is raised for a failure, with no recognised cause further out. -/
def Outermost (cause : Cause) (known : Failure) (chain : List Cause) : Prop :=
  cause.Marks known ∧
    ∃ outer deeper, chain = outer ++ cause :: deeper ∧ ∀ other ∈ outer, ¬ other.Recognised

theorem findSome?_failure?_eq_some {chain : List Cause} {known : Failure} :
    chain.findSome? failure? = some known ↔ ∃ cause, Outermost cause known chain := by
  simp only [List.findSome?_eq_some_iff, failure?_eq_some_iff, failure?_eq_none_iff, Outermost]
  constructor
  · rintro ⟨outer, cause, deeper, hchain, hmarks, houter⟩
    exact ⟨cause, hmarks, outer, deeper, hchain, houter⟩
  · rintro ⟨cause, hmarks, outer, deeper, hchain, houter⟩
    exact ⟨outer, cause, deeper, hchain, hmarks, houter⟩

/-- Where a cause is recognised, one of the recognised causes is the outermost. -/
theorem exists_outermost {chain : List Cause} (h : ∃ cause ∈ chain, cause.Recognised) :
    ∃ cause known, Outermost cause known chain := by
  obtain ⟨cause, hmem, hrec⟩ := h
  cases hfound : chain.findSome? failure? with
  | some known =>
    obtain ⟨outermost, ho⟩ := findSome?_failure?_eq_some.mp hfound
    exact ⟨outermost, known, ho⟩
  | none =>
    have hnone := List.findSome?_eq_none_iff.mp hfound cause hmem
    exact absurd hrec (failure?_eq_none_iff.mp hnone)

/-! ## Classification -/

/-- The outermost recognised cause decides, under any contexts. -/
theorem classify_eq_of_outermost {cause : Cause} {known : Failure} {chain : List Cause}
    (h : Outermost cause known chain) (contexts : List String) :
    classify (inContext contexts chain) = known :=
  classify_inContext (findSome?_failure?_eq_some.mpr ⟨cause, h⟩)

/-- A chain in which nothing is recognised is told from the outermost context on. -/
theorem classify_of_unrecognised {chain : List Cause} (h : ∀ cause ∈ chain, ¬ cause.Recognised)
    (contexts : List String) :
    classify (inContext contexts chain) = .general (": ".intercalate (contexts ++ chain.map text)) := by
  -- a cause of no recognised kind is nothing but its text
  have hforeign : (chain.map text).map foreign = chain := by
    rw [List.map_map, map_eq_self]
    intro cause hc
    cases cause with
    | foreign text => rfl
    | _ => exact absurd ⟨_, failure?_eq_some_iff.mp rfl⟩ (h _ hc)
  rw [← classify_foreign, ← inContext_foreign, hforeign]

/-- A chain is a cancellation exactly if its outermost recognised cause is one. -/
theorem isCancellation_classify_iff (contexts : List String) (chain : List Cause) :
    (classify (inContext contexts chain)).isCancellation = true ↔
      ∃ cause, Outermost cause .cancel chain := by
  constructor
  · intro h
    by_cases hrec : ∃ cause ∈ chain, cause.Recognised
    · obtain ⟨cause, known, ho⟩ := exists_outermost hrec
      rw [classify_eq_of_outermost ho] at h
      cases known with
      | cancel => exact ⟨cause, ho⟩
      | _ => cases h
    · have hnone : ∀ cause ∈ chain, ¬ cause.Recognised := fun cause hc hr => hrec ⟨cause, hc, hr⟩
      rw [classify_of_unrecognised hnone] at h
      cases h
  · rintro ⟨cause, ho⟩
    rw [classify_eq_of_outermost ho]
    rfl

/-! ## Boundaries of calls -/

/-- What becomes of a failure that is put under contexts and classified once more. -/
def atBoundary (known : Failure) (contexts : List String) : Failure :=
  classify (inContext contexts [.failure known])

theorem atBoundary_eq (known : Failure) (contexts : List String) :
    atBoundary known contexts = known :=
  classify_eq_of_outermost ⟨.failure known, [], [], rfl, nofun⟩ contexts

theorem foldl_atBoundary (known : Failure) (boundaries : List (List String)) :
    boundaries.foldl atBoundary known = known := by
  induction boundaries with
  | nil => rfl
  | cons contexts rest ih => rw [List.foldl_cons, atBoundary_eq, ih]

/-- How a chain is classified, whatever contexts are put around it.

* If it has a recognised cause, it is the failure that the outermost such cause is raised for, with and
  without the contexts.
* If not, it is a general failure that tells the contexts and then the causes, the outermost first.
* It stays the same failure at any number of boundaries with contexts of their own.
* It is a cancellation exactly if the outermost recognised cause is one. -/
theorem classify_stable (contexts : List String) (chain : List Cause) :
    ((∃ cause ∈ chain, cause.Recognised) →
      ∃ cause known, Outermost cause known chain ∧ classify (inContext contexts chain) = known ∧
        classify chain = known) ∧
    ((∀ cause ∈ chain, ¬ cause.Recognised) →
      classify (inContext contexts chain) =
        .general (": ".intercalate (contexts ++ chain.map text))) ∧
    (∀ boundaries : List (List String),
      boundaries.foldl atBoundary (classify (inContext contexts chain)) =
        classify (inContext contexts chain)) ∧
    ((classify (inContext contexts chain)).isCancellation = true ↔
      ∃ cause, Outermost cause .cancel chain) := by
  refine ⟨?_, ?_, ?_, isCancellation_classify_iff contexts chain⟩
  · intro h
    obtain ⟨cause, known, ho⟩ := exists_outermost h
    exact ⟨cause, known, ho, classify_eq_of_outermost ho contexts, classify_eq_of_outermost ho []⟩
  · intro h
    exact classify_of_unrecognised h contexts
  · exact foldl_atBoundary _

/-- A failed request in front of a cancellation, both under a context, and a chain of texts. -/
theorem classify_stable_requestFirst :
    (∃ cause ∈ [foreign "loading", http (some 404) "gone", cancelled], cause.Recognised) ∧
    classify (inContext ["opening", "fetching"] [foreign "loading", http (some 404) "gone", cancelled]) =
      .request (some 404) "gone" ∧
    (∀ cause ∈ [foreign "disk", foreign "full"], ¬ cause.Recognised) ∧
    classify (inContext ["saving"] [foreign "disk", foreign "full"]) = .general "saving: disk: full" := by
  have hrec : ∃ cause ∈ [foreign "loading", http (some 404) "gone", cancelled], cause.Recognised :=
    ⟨.http (some 404) "gone", by simp, _, .http _ _⟩
  have hnone : ∀ cause ∈ [foreign "disk", foreign "full"], ¬ cause.Recognised := by
    rintro cause hc ⟨known, hm⟩
    cases hm <;> simp at hc
  obtain ⟨hfirst, -, -, -⟩ := classify_stable ["opening", "fetching"]
    [foreign "loading", http (some 404) "gone", cancelled]
  obtain ⟨-, hsecond, -, -⟩ := classify_stable ["saving"] [foreign "disk", foreign "full"]
  obtain ⟨cause, known, -, hwith, hwithout⟩ := hfirst hrec
  have hknown : known = .request (some 404) "gone" := hwithout.symm
  exact ⟨hrec, hwith.trans hknown, hnone, hsecond hnone⟩

end Credential.Cause
