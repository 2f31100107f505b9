import Palisade.Codec.Base16
import Palisade.Script.Recorder
import Palisade.Service.Server
import Palisade.Settings.Document
import Palisade.Sql.Database
import Palisade.Proofs.Token.Message
import Palisade.Proofs.Connection.Arrival
import Palisade.Proofs.Connection.Takes
import Palisade.Proofs.Connection.Bodies
import Palisade.Proofs.Response.Fields
import Palisade.Proofs.Response.Operations
import Palisade.Proofs.Response.Claims
import Palisade.Proofs.Service.Passage
import Palisade.Proofs.Security.Lines
import Palisade.Proofs.Security.Policies
import Palisade.Proofs.Security.Owners
import Palisade.Proofs.Security.Stack
import Palisade.Proofs.Security.Promise
import Palisade.Proofs.Response.Histories
import Palisade.Proofs.Connection.Sequence
import Palisade.Proofs.Security.Admission
import Palisade.Proofs.Http.SentBack
import Palisade.Proofs.Security.Submission
import Palisade.Proofs.Text.Leftmost
import Palisade.Proofs.Markup.StartTags
import Palisade.Proofs.Markup.Cuts
import Palisade.Proofs.Markup.Places
import Palisade.Proofs.Markup.RawText
import Palisade.Proofs.Markup.Composition
import Palisade.Proofs.Connection.Client
import Palisade.Proofs.Response.Readable
import Palisade.Proofs.Service.Readable
import Palisade.Proofs.Security.Readable
import Palisade.Proofs.Connection.Answers
import Palisade.Proofs.Security.Steps
import Palisade.Proofs.Template.Parts
import Palisade.Proofs.Template.Injection
import Palisade.Proofs.Template.Escaping
import Palisade.Proofs.Security.Chains
import Palisade.Proofs.Security.Frames
import Palisade.Proofs.Security.Confinement
import Palisade.Proofs.Security.OwnOrigin
import Palisade.Proofs.Security.Gate
import Palisade.Proofs.Security.Grants
import Palisade.Proofs.Template.Rendering
import Palisade.Proofs.Security.Handover
import Palisade.Proofs.Security.Pages
import Palisade.Proofs.Response.Overwrites
import Palisade.Proofs.Security.CacheKey
import Palisade.Proofs.Service.Trace
import Palisade.Proofs.Routing.Lookup
import Palisade.Proofs.Http.Wire
import Palisade.Proofs.Security.Renewal
import Palisade.Proofs.Service.Layers
import Palisade.Proofs.Service.Journal
import Palisade.Proofs.Security.Recording
import Palisade.Proofs.Security.Rehearsal
import Palisade.Proofs.Security.Keepers
import Palisade.Proofs.Security.Conflicts
import Palisade.Proofs.Service.Views
import Palisade.Proofs.Security.HeaderChains
import Palisade.Proofs.Security.Orderings
import Palisade.Proofs.Text.Numerals
import Palisade.Proofs.Token.Verdict
import Palisade.Proofs.Routing.Matching
import Palisade.Proofs.Http.Encoded
import Palisade.Proofs.Security.Sendable
import Palisade.Proofs.Connection.Persistence
import Palisade.Proofs.Http.CookieLines
import Palisade.Proofs.Response.CookieText
import Palisade.Proofs.Service.Encoding
import Palisade.Proofs.Security.Questions
import Palisade.Proofs.Connection.DeclaredLength
import Palisade.Proofs.Connection.Checks
import Palisade.Proofs.Response.Redirects
import Palisade.Proofs.Security.Upgrade
import Palisade.Proofs.Text.Trimming
import Palisade.Proofs.Template.Grammar
import Palisade.Proofs.Security.Origins
import Palisade.Proofs.Routing.Equivalence
import Palisade.Proofs.Routing.HostNames
import Palisade.Proofs.Sql.Separators
import Palisade.Proofs.Sql.Comments
import Palisade.Proofs.Http.Multimap
import Palisade.Proofs.Text.Offsets
import Palisade.Proofs.Markup.ByteScan
import Palisade.Proofs.Markup.Boundaries
import Palisade.Proofs.Markup.InBounds
