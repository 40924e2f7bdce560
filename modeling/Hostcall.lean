import Hostcall.Arena.Action
import Hostcall.Boundary.Access
import Hostcall.CommandLine.Run
import Hostcall.Main
import Hostcall.Program.Check
import Hostcall.Program.Json
import Hostcall.Program.Listing
import Hostcall.Session.Call
import Hostcall.Session.Host
import Hostcall.Settings
import Hostcall.Proofs.Arena.Invariant
import Hostcall.Proofs.Program.Canonical
import Hostcall.Proofs.Registry.FiniteMap
import Hostcall.Proofs.Session.Bracketing
import Hostcall.Proofs.Session.Labels
import Hostcall.Proofs.Session.Cancellation
import Hostcall.Proofs.Session.Isolation
import Hostcall.Proofs.Session.Agreement
import Hostcall.Proofs.Registry.Generations
import Hostcall.Proofs.Machine.Layout
import Hostcall.Proofs.Session.Layout
import Hostcall.Boundary.Script
import Hostcall.Proofs.Boundary.Requests
import Hostcall.Proofs.Boundary.Reporting
import Hostcall.Proofs.Arena.Placement
import Hostcall.Proofs.Arena.Release
import Hostcall.Proofs.Machine.Footing
import Hostcall.Proofs.Machine.Bounds
import Hostcall.Proofs.Session.CallDepth
import Hostcall.Proofs.Session.Returns
import Hostcall.Proofs.Session.Strides
import Hostcall.Proofs.Session.StepCount
import Hostcall.Proofs.Session.StepLimit
import Hostcall.Proofs.Arena.Runs
import Hostcall.Proofs.Machine.Arguments
import Hostcall.Proofs.Machine.Creation
import Hostcall.Proofs.Machine.DataSegment
import Hostcall.Proofs.Session.Admission
import Hostcall.Proofs.Session.Retries
import Hostcall.Proofs.Arena.Texts
import Hostcall.Proofs.Arena.Refusals
import Hostcall.Proofs.Session.Controls
import Hostcall.Proofs.Settings.RoundTrip
import Hostcall.Proofs.CommandLine.Pausing
import Hostcall.Proofs.Word.NoWrap
