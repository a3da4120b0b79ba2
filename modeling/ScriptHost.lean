import ScriptHost.Double.Shortest
import ScriptHost.Text.Utf8
import ScriptHost.Text.Utf16
import ScriptHost.Text.Blank
import ScriptHost.Constants
import ScriptHost.Json.Printer
import ScriptHost.Json.Parser
import ScriptHost.HostValue
import ScriptHost.Startup
import ScriptHost.BigInteger
import ScriptHost.Engine
import ScriptHost.Interrupt.Handles
import ScriptHost.Fpu.Bench
import ScriptHost.Exchange.Projection
import ScriptHost.Exchange.Session
import ScriptHost.Native.Engine
import ScriptHost.Scripted.Engine
import ScriptHost.Scripted.Native
import ScriptHost.Proofs.Layout.Classes
import ScriptHost.Proofs.Layout.Fields
import ScriptHost.Proofs.Layout.RoundTrip
import ScriptHost.Proofs.Layout.Canonical
import ScriptHost.Proofs.Layout.Partition
import ScriptHost.Proofs.Layout.ForeignNaN
import ScriptHost.Proofs.Double.Value
import ScriptHost.Proofs.Double.Nearest
import ScriptHost.Proofs.Exchange.Returns
import ScriptHost.Proofs.Exchange.Trace
import ScriptHost.Proofs.Exchange.Ending
import ScriptHost.Proofs.Exchange.Ledger
import ScriptHost.Proofs.Exchange.Conservation
import ScriptHost.Proofs.Exchange.Exceptions
import ScriptHost.Proofs.Exchange.Lockstep
import ScriptHost.Proofs.Exchange.Interchange
import ScriptHost.Proofs.Double.Whole
import ScriptHost.Proofs.Text.Utf8
import ScriptHost.Proofs.Exchange.Normal
import ScriptHost.Proofs.Exchange.Keeping
import ScriptHost.Proofs.Exchange.Trips
import ScriptHost.Proofs.Exchange.Discipline
import ScriptHost.Proofs.Fpu.Nesting
import ScriptHost.Proofs.Fpu.Shielding
import ScriptHost.Proofs.Interrupt.LastWrite
import ScriptHost.Proofs.Native.Requests
import ScriptHost.Proofs.Native.Lifetime
import ScriptHost.Proofs.Layout.Selection
import ScriptHost.Proofs.Text.Decimal
import ScriptHost.Proofs.Exchange.Chain
import ScriptHost.Proofs.Text.Surrogates
import ScriptHost.Proofs.Exchange.Texts
import ScriptHost.Proofs.Native.BigIntegers
import ScriptHost.Proofs.Native.Pending
import ScriptHost.Proofs.Native.Projections
import ScriptHost.Proofs.Json.Documents
import ScriptHost.Proofs.Json.Views
import ScriptHost.Proofs.Exchange.Constants
import ScriptHost.Proofs.Native.Surroundings
import ScriptHost.Proofs.Native.Interrupts
