import AlloDataChannel.Peer
import AlloDataChannel.Registry
import AlloDataChannel.RemoteDescription
import AlloDataChannel.RtcLaw
import AlloDataChannel.Ssrc
import AlloDataChannel.CreateTrack
import AlloDataChannel.MediaForwardingUnit
import AlloDataChannel.Forwarding
import AlloDataChannel.Sdp
import AlloDataChannel.Lib.Tokens
import AlloDataChannel.Addresses
import AlloDataChannel.Lib.Lines
import AlloDataChannel.UnifiedMsid
import AlloDataChannel.SourceMsid
import AlloDataChannel.TrackIds
import AlloDataChannel.Lib.Numbering
import AlloDataChannel.PayloadTypes
import AlloDataChannel.FailedCreateTrack
import AlloDataChannel.FailedUnit
import AlloDataChannel.KeyFrames
import AlloDataChannel.SizedReads
import AlloDataChannel.Lib.Execution
import AlloDataChannel.WaitFor
import AlloDataChannel.WaitForLaw
import AlloDataChannel.Lib.Fanout
import AlloDataChannel.Callbacks
import AlloDataChannel.PeerState
import AlloDataChannel.Lib.Observe
import AlloDataChannel.Sfu
import AlloDataChannel.SfuLaw
import AlloDataChannel.SfuSteps
import AlloDataChannel.Lib.Ownership
import AlloDataChannel.Units
import AlloDataChannel.UnitsInv
import AlloDataChannel.Ownership
import AlloDataChannel.UnitRuns
import AlloDataChannel.UnitRequests
import AlloDataChannel.UnitIsolation
import AlloDataChannel.Timeout
import AlloDataChannel.Published
import AlloDataChannel.Lifetime
import AlloDataChannel.Lib.Marks
import AlloDataChannel.Forwardable
import AlloDataChannel.Lib.Buffers
import AlloDataChannel.CStrings
import AlloDataChannel.Hops
import AlloDataChannel.Traps
import AlloDataChannel.UnitPeers
import AlloDataChannel.Initialisers
import AlloDataChannel.Process
