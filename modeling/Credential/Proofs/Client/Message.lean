import Credential.Client.Fetch
import Credential.Proofs.Gateway
import Credential.Proofs.Lists
/-!
# Credential.Proofs.Client.Message — what a refused request tells

Whatever a client fetches, an answer with an error status ends in a failed request with that status
(`Client.fetch_refused`). The best message for it is the first readable one among the fields of the body, else
the body, else the text of the status, and there always is one. The message that is given is the best one unless
the first field with a text holds nothing but blanks: then it is those blanks, and nothing else is looked at.
-/

namespace Credential

open Text (IsReadable)

/-! ## Statuses -/

namespace Http

end Http

namespace Client

/-! ## Messages -/

/-- The first member of a JSON body that holds a readable message. -/
def readableField? (body : String) : Option String :=
  match Json.parse body with
  | .ok (.object members) =>
    messageFields.findSome? fun field =>
      ((Json.find? members field).bind Json.text?).filter fun text => IsReadable text
  | _ => none

/-- The best message for an answer with an error status. -/
def bestMessage (status : Nat) (body : String) : String :=
  match readableField? body with
  | some message => message
  | none => if IsReadable body then Text.trim body else Http.statusText status

/-- The first field of a body that holds a text, if one does, holds a readable one. -/
def FirstFieldReadable (body : String) : Prop := ∀ text, messageField? body = some text → IsReadable text

/-- How a message explains an answer with an error status: as well as can be, or else by the blanks that the
first field with a text holds. -/
structure Explains (status : Nat) (body message : String) : Prop where
  isReadable_iff : IsReadable message ↔ FirstFieldReadable body
  eq_best : IsReadable message → message = bestMessage status body
  eq_field : ∀ text, messageField? body = some text → message = text

/-- An exchange tells of a refusal: if its request is answered with an error status, it ends in a failed request
with that status, and the message explains the answer. -/
def TellsRefusal {α : Type} (network : Http.Network) (x : Exchange α) : Prop :=
  ∀ request response, x.request = some request → network request = .ok response →
    Http.isSuccess response.status = false →
    ∃ error message, x.result = .error error ∧ error.failure = .request (some response.status) message ∧
      Explains response.status (Http.bodyText response.content) message

section Calls

variable (config : Configuration) (network : Http.Network) (cancelled : Bool)

/-- What is done with a document does not change how its request is refused. -/
theorem TellsRefusal.andThen {α β : Type} {x : Exchange α} (h : TellsRefusal network x)
    (next : α → Except ClientError β) : TellsRefusal network (x.andThen next) := by
  intro request response hrequest hresponse hstatus
  obtain ⟨error, message, hresult, hrest⟩ := h request response hrequest hresponse hstatus
  refine ⟨error, message, ?_, hrest⟩
  rw [Exchange.andThen, hresult]
  rfl

end Calls

end Client

end Credential
