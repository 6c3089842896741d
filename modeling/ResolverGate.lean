import ResolverGate.BlocklistFile
import ResolverGate.Main
import ResolverGate.Network.Monitor
import ResolverGate.Proofs.Admission
import ResolverGate.Proofs.Answer.Compression
import ResolverGate.Proofs.Answer.Degrading
import ResolverGate.Proofs.Answer.Layout
import ResolverGate.Proofs.Answer.Records
import ResolverGate.Proofs.Answer.Reply
import ResolverGate.Proofs.Backend.Framing
import ResolverGate.Proofs.Backend.Listening
import ResolverGate.Proofs.Backend.Payload
import ResolverGate.Proofs.Blocking
import ResolverGate.Proofs.Cursors
import ResolverGate.Proofs.Engine.Amplification
import ResolverGate.Proofs.Engine.Asking
import ResolverGate.Proofs.Engine.Calling
import ResolverGate.Proofs.Engine.Declaring
import ResolverGate.Proofs.Engine.Failure
import ResolverGate.Proofs.Engine.Forwarding
import ResolverGate.Proofs.Engine.History
import ResolverGate.Proofs.Engine.Invariant
import ResolverGate.Proofs.Engine.Isolation
import ResolverGate.Proofs.Engine.Messages
import ResolverGate.Proofs.Engine.Overrunning
import ResolverGate.Proofs.Engine.Ownership
import ResolverGate.Proofs.Engine.Reading
import ResolverGate.Proofs.Engine.Reassembly
import ResolverGate.Proofs.Engine.Replying
import ResolverGate.Proofs.Engine.Routing
import ResolverGate.Proofs.Engine.Telling
import ResolverGate.Proofs.Engine.Writing
import ResolverGate.Proofs.Listing
import ResolverGate.Proofs.Message.Edns
import ResolverGate.Proofs.Message.Grammar
import ResolverGate.Proofs.Message.Question
import ResolverGate.Proofs.Message.Synthesis
import ResolverGate.Proofs.Network.Reporting
import ResolverGate.Proofs.Network.Walking
import ResolverGate.Proofs.Network.Withdrawing
import ResolverGate.Proofs.Octets
import ResolverGate.Proofs.Options
import ResolverGate.Proofs.Reload.Converging
import ResolverGate.Proofs.Respelling
import ResolverGate.Proofs.Server.AcceptTurns
import ResolverGate.Proofs.Server.Accepting
import ResolverGate.Proofs.Server.Running
import ResolverGate.Proofs.Server.Watching
import ResolverGate.Proofs.Text.Base64
import ResolverGate.Proofs.Text.Tokens
import ResolverGate.Proofs.TrustAnchor.Announcing
import ResolverGate.Proofs.TrustAnchor.Canonical
import ResolverGate.Proofs.TrustAnchor.Keeping
import ResolverGate.Proofs.TrustAnchor.Presentation
import ResolverGate.Proofs.TrustAnchor.Tag
import ResolverGate.Reload.Schedule
import ResolverGate.Server.FrontEnd
import ResolverGate.TrustAnchor.File
