import Credential.Attribute.Basic
import Credential.Attribute.Build
import Credential.Attribute.Codec
import Credential.Client.Error
import Credential.Client.Fetch
import Credential.Command.Arguments
import Credential.Command.Fetch
import Credential.Command.File
import Credential.Command.Invocation
import Credential.Command.Local
import Credential.Command.Outcome
import Credential.Configuration
import Credential.Document
import Credential.Failure.Basic
import Credential.Failure.Cause
import Credential.Fingerprint.Basic
import Credential.Fingerprint.Hex
import Credential.Fingerprint.Keccak
import Credential.Http.Authorization
import Credential.Http.Exchange
import Credential.Http.Status
import Credential.Ip
import Credential.Issue.Basic
import Credential.Issue.Codec
import Credential.Json.Basic
import Credential.Json.Double
import Credential.Json.Equality
import Credential.Json.Number
import Credential.Json.Parser
import Credential.Json.Pointer
import Credential.Json.Printer
import Credential.JsonLd
import Credential.Main
import Credential.Numeral
import Credential.Percent
import Credential.Proofs.Attribute.Build
import Credential.Proofs.Attribute.Composition
import Credential.Proofs.Attribute.Diagnosis
import Credential.Proofs.Attribute.Grammar
import Credential.Proofs.Attribute.Leaves
import Credential.Proofs.Attribute.Refusal
import Credential.Proofs.Attribute.Relocation
import Credential.Proofs.Attribute.Rephrasing
import Credential.Proofs.Attribute.RoundTrip
import Credential.Proofs.Attribute.Tree
import Credential.Proofs.Attribute.Unions
import Credential.Proofs.Attribute.WellFormed
import Credential.Proofs.Client.Message
import Credential.Proofs.Command.Settled
import Credential.Proofs.Command.Subject
import Credential.Proofs.Except
import Credential.Proofs.Failure.Classification
import Credential.Proofs.Failure.Stability
import Credential.Proofs.Fingerprint.Hex
import Credential.Proofs.Fingerprint.Identifiers
import Credential.Proofs.Fingerprint.Name
import Credential.Proofs.Gateway
import Credential.Proofs.Ip
import Credential.Proofs.Issue.Codec
import Credential.Proofs.Issue.Flatten
import Credential.Proofs.Issue.Terminal
import Credential.Proofs.Json.Members
import Credential.Proofs.Json.Pointer
import Credential.Proofs.Json.Steps
import Credential.Proofs.Json.Tree
import Credential.Proofs.Lists
import Credential.Proofs.Numeral
import Credential.Proofs.Overlay.Accepted
import Credential.Proofs.Overlay.Agreement
import Credential.Proofs.Overlay.Choice
import Credential.Proofs.Overlay.Faithful
import Credential.Proofs.Overlay.Idempotent
import Credential.Proofs.Overlay.Laid
import Credential.Proofs.Overlay.Located
import Credential.Proofs.Overlay.Lookup
import Credential.Proofs.Overlay.Projection
import Credential.Proofs.Overlay.Violations
import Credential.Proofs.Percent
import Credential.Proofs.Request.History
import Credential.Proofs.Request.LatestWins
import Credential.Proofs.Request.Ownership
import Credential.Proofs.Text
import Credential.Proofs.Url.Host
import Credential.Proofs.Url.Path
import Credential.Proofs.Url.Web
import Credential.Proofs.Utf8
import Credential.Proofs.Validation.Branch
import Credential.Proofs.Validation.Ending
import Credential.Proofs.Validation.Engine
import Credential.Proofs.Validation.Expansion
import Credential.Proofs.Validation.Flattening
import Credential.Proofs.Validation.Nesting
import Credential.Proofs.Validation.Plan
import Credential.Proofs.Validation.Report
import Credential.Proofs.Validation.Schemas
import Credential.Proofs.Validation.UnionDetail
import Credential.Proofs.Validation.Verdict
import Credential.Proofs.Validation.Vocabulary
import Credential.Proofs.Validation.WholeReferences
import Credential.Proofs.Value.RoundTrip
import Credential.Proofs.Value.Tree
import Credential.Quotation
import Credential.Request.Slot
import Credential.Request.Task
import Credential.Text
import Credential.Url.Basic
import Credential.Url.Host
import Credential.Url.Parser
import Credential.Url.Punycode
import Credential.Validation.Draft
import Credential.Validation.Engine
import Credential.Validation.Evaluation
import Credential.Validation.Library
import Credential.Validation.Metaschema
import Credential.Validation.Pattern
import Credential.Validation.Payload
import Credential.Validation.Reference
import Credential.Validation.Rejection
import Credential.Validation.Report
import Credential.Validation.StringFormat
import Credential.Value.Basic
import Credential.Value.Codec
import Credential.Value.Overlay
import Credential.Value.Violation
import Credential.Yaml.Cursor
import Credential.Yaml.Document
import Credential.Yaml.Error
import Credential.Yaml.Event
import Credential.Yaml.Plain
import Credential.Yaml.Scalar
import Credential.Yaml.Tag
import Credential.Yaml.Token
