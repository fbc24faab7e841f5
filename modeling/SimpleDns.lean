import SimpleDns.Resolver.Verify
import SimpleDns.Resolver.Positive
import SimpleDns.Lib.Cyclic
import SimpleDns.Wire.Nsec
import SimpleDns.Resolver.Negative
import SimpleDns.Wire.Labels
import SimpleDns.Resolver.Aggressive
import SimpleDns.Lib.Numeral
import SimpleDns.Wire.Addr
import SimpleDns.Wire.RdataText
import SimpleDns.Lib.Threads
import SimpleDns.Resolver.Cache
import SimpleDns.Resolver.Resolve
import SimpleDns.Server.Static
import SimpleDns.Server.Store
import SimpleDns.Server.Update
import SimpleDns.Server.Auth
import SimpleDns.Server.Srp
import SimpleDns.Server.Handle
import SimpleDns.Wire.Address
import SimpleDns.Server.Transfer
import SimpleDns.Server.View
import SimpleDns.Server.Changes
import SimpleDns.Server.Replica
import SimpleDns.Server.Converge
import SimpleDns.Wire.Compress
import SimpleDns.Server.Sign
import SimpleDns.Server.Agree
import SimpleDns.Server.Signed
import SimpleDns.Server.Confine
import SimpleDns.Server.Rdata
import SimpleDns.Server.Emit
import SimpleDns.Server.Query
import SimpleDns.Server.Grow
import SimpleDns.Server.Lookup
import SimpleDns.Server.Finish
import SimpleDns.Server.Exists
import SimpleDns.Server.Wildcard
import SimpleDns.Server.Addresses
import SimpleDns.Server.Alias
import SimpleDns.Server.Denial
import SimpleDns.Server.Journal
import SimpleDns.Server.FullTransfer
import SimpleDns.Server.Replicate
import SimpleDns.Lib.Calls
import SimpleDns.Resolver.Aliases
import SimpleDns.Lib.Trace
import SimpleDns.Resolver.Transparent
import SimpleDns.Server.TsigFresh
import SimpleDns.Server.Registration
import SimpleDns.Server.TransferFaults
import SimpleDns.Server.SignedTransfer
import SimpleDns.Server.SignedIncrement
import SimpleDns.Lib.Runs
import SimpleDns.Server.Zonemd
import SimpleDns.Lib.Alone
import SimpleDns.Lib.TwoStage
import SimpleDns.Server.Rollover
import SimpleDns.Server.RolloverStep
import SimpleDns.Server.RolloverRuns
import SimpleDns.Server.RolloverFaults
import SimpleDns.Server.KskChain
import SimpleDns.Wire.Decoder
import SimpleDns.Resolver.Accept
import SimpleDns.Lib.Buffered
import SimpleDns.Wire.Resp
import SimpleDns.Resolver.Respond
import SimpleDns.Epp.Dispatch
import SimpleDns.Epp.Ops
import SimpleDns.Epp.DomainEffect
import SimpleDns.Epp.Finite
import SimpleDns.Epp.Objects
import SimpleDns.Epp.Sponsor
import SimpleDns.Epp.Transfer
import SimpleDns.Epp.Zones
import SimpleDns.Lib.Sending
import SimpleDns.Resolver.Doh
import SimpleDns.Resolver.Upstream
import SimpleDns.Resolver.Stale
import SimpleDns.Server.Forward
import SimpleDns.Cert.Caa
import SimpleDns.Api.Relay
import SimpleDns.Api.Params
import SimpleDns.Epp.Framing
import SimpleDns.Server.SignedName
import SimpleDns.Wire.NameOrder
