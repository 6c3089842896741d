import ResolverGate.Address.Text
import ResolverGate.Fault

/-! # Notices

What the front end tells its operator, as causes; a notice is logged under its
level, with its message and named values.
-/

namespace ResolverGate

inductive Level
  | info | warn | error
  deriving DecidableEq, Repr

inductive Notice
  | blockedQuery (qname : String) (client : SocketAddress)
  | datagramDropped (client : Option SocketAddress) (fault : Fault)
  | queryDropped (id : QueryId) (fault : Fault)
  | unknownQuery (id : QueryId)
  | unexpectedAnswer (id : QueryId) (state : String)
  | notForwarded (id : QueryId) (fault : Fault)
  | notBuffered (id : QueryId) (fault : Fault)
  | notEncoded (id : QueryId) (qname : String) (fault : Fault)
  | notFramed (id : QueryId) (fault : Fault)
  | anchorsLoaded (count : Nat)
  | anchorsChanged (count : Nat)
  | anchorsNotSaved (fault : Fault)
  | anchorLineIgnored (error : AnchorError)
  | blocklistEntryIgnored (line : Nat) (entry : String)
  | proposalSent (ifIndex : UInt32) (source : UInt8) (resolvers : Nat)
  | proposalFamilyInvalid (ifIndex : UInt32) (family : UInt16)
  | proposalLengthInvalid (ifIndex : UInt32) (length : Nat)
  | blocklistSourceRemoved
  | reloadStarted (intervalSecs : Nat)
  | jobsStarted (count : Nat)
  | reloadFailed (fault : Fault)
  | reloadStopped
  deriving DecidableEq, Repr

namespace Notice

def level : Notice → Level
  | blockedQuery .. | anchorsLoaded _ | anchorsChanged _ | proposalSent .. => .info
  | blocklistSourceRemoved | reloadStarted _ | jobsStarted _ | reloadStopped => .info
  | reloadFailed _ => .error
  | _ => .warn

def message : Notice → String
  | blockedQuery .. => "Blocked query"
  | datagramDropped .. => "Dropping UDP query"
  | queryDropped .. => "Dropping TCP query"
  | unknownQuery _ => "Cannot find pending query"
  | unexpectedAnswer .. => "Answer for query not awaiting one"
  | notForwarded .. => "Cannot forward query"
  | notBuffered .. => "Cannot buffer answer"
  | notEncoded .. => "Cannot encode answer"
  | notFramed .. => "Cannot frame TCP answer"
  | anchorsLoaded _ => "Trust anchors loaded"
  | anchorsChanged _ => "Trust anchors changed"
  | anchorsNotSaved _ => "Cannot persist trust anchors"
  | anchorLineIgnored _ => "Ignoring trust anchor line"
  | blocklistEntryIgnored .. => "Ignoring malformed blocklist entry"
  | proposalSent .. => "Resolver proposal"
  | proposalFamilyInvalid .. => "Invalid address family in resolver proposal"
  | proposalLengthInvalid .. => "Invalid resolver proposal payload length"
  | blocklistSourceRemoved => "Blocklist source removed, clearing blocklist"
  | reloadStarted _ => "Starting blocklist reload job"
  | jobsStarted _ => "Background jobs started"
  | reloadFailed _ => "BlocklistReloadJob: reload failed"
  | reloadStopped => "BlocklistReloadJob: shutting down"

def values : Notice → List (String × String)
  | blockedQuery qname client => [("qname", qname), ("client", client.text)]
  | datagramDropped client fault =>
      (client.map fun c => ("peer", c.text)).toList ++ [("error", fault.message)]
  | queryDropped id fault => [("id", id.text), ("error", fault.message)]
  | unknownQuery id => [("id", id.text)]
  | unexpectedAnswer id state => [("id", id.text), ("state", state)]
  | notForwarded id fault => [("id", id.text), ("error", fault.message)]
  | notBuffered id fault => [("id", id.text), ("error", fault.message)]
  | notEncoded id qname fault =>
      [("id", id.text), ("qname", qname), ("error", fault.message)]
  | notFramed id fault => [("id", id.text), ("error", fault.message)]
  | anchorsLoaded count => [("count", count.repr)]
  | anchorsChanged count => [("count", count.repr)]
  | anchorsNotSaved fault => [("error", fault.message)]
  | anchorLineIgnored error => [("error", (Fault.invalidTrustAnchor error).message)]
  | blocklistEntryIgnored line entry => [("line", line.repr), ("entry", entry)]
  | proposalSent ifIndex source resolvers =>
      [("if_index", ifIndex.toNat.repr), ("source", source.toNat.repr),
        ("resolvers", resolvers.repr)]
  | proposalFamilyInvalid ifIndex family =>
      [("if_index", ifIndex.toNat.repr), ("family", family.toNat.repr)]
  | proposalLengthInvalid ifIndex length =>
      [("if_index", ifIndex.toNat.repr), ("len", length.repr)]
  | blocklistSourceRemoved => []
  | reloadStarted intervalSecs => [("interval_secs", intervalSecs.repr)]
  | jobsStarted count => [("jobs", count.repr)]
  | reloadFailed fault => [("error", fault.message)]
  | reloadStopped => []

end Notice

end ResolverGate
