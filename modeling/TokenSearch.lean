import TokenSearch.Http
import TokenSearch.Main
import TokenSearch.Proofs.Additions
import TokenSearch.Proofs.Atomicity
import TokenSearch.Proofs.CommandLanguage
import TokenSearch.Proofs.Composition
import TokenSearch.Proofs.Connection
import TokenSearch.Proofs.Deposits
import TokenSearch.Proofs.Descent
import TokenSearch.Proofs.Evaluation
import TokenSearch.Proofs.Formats
import TokenSearch.Proofs.Groups
import TokenSearch.Proofs.Growth
import TokenSearch.Proofs.Height
import TokenSearch.Proofs.Http.Posting
import TokenSearch.Proofs.Http.Refusal
import TokenSearch.Proofs.LeftmostFault
import TokenSearch.Proofs.NormalText
import TokenSearch.Proofs.Rearrangement
import TokenSearch.Proofs.ReplyText
import TokenSearch.Proofs.Session.Invalid
import TokenSearch.Proofs.Session.Progress
import TokenSearch.Proofs.Session.Replies
import TokenSearch.Proofs.Spacing
import TokenSearch.Proofs.Tiling
import TokenSearch.Proofs.TokenLanguage
import TokenSearch.Text.Utf8.RoundTrip
