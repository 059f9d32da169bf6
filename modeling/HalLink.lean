import HalLink.ByteString.Session
import HalLink.Catalog.Session
import HalLink.CommandLine
import HalLink.Handle.Session
import HalLink.Main
import HalLink.Manifest.Writer
import HalLink.Proofs.ByteString.CString
import HalLink.Proofs.ByteString.Comparison
import HalLink.Proofs.ByteString.SizeLimit
import HalLink.Proofs.ByteString.Text
import HalLink.Proofs.Catalog.Degradation
import HalLink.Proofs.Catalog.Isolation
import HalLink.Proofs.Catalog.Refinement
import HalLink.Proofs.Catalog.Reports
import HalLink.Proofs.Catalog.Requests
import HalLink.Proofs.Catalog.Shared
import HalLink.Proofs.CommandLine.Concatenation
import HalLink.Proofs.CommandLine.Report
import HalLink.Proofs.Handle.Adoption
import HalLink.Proofs.Handle.Assignment
import HalLink.Proofs.Handle.Copying
import HalLink.Proofs.Handle.Duplication
import HalLink.Proofs.Handle.Layout
import HalLink.Proofs.Handle.Stale
import HalLink.Proofs.InterfaceName.Faults
import HalLink.Proofs.InterfaceName.Rendering
import HalLink.Proofs.Manifest.Building
import HalLink.Proofs.Manifest.Leniency
import HalLink.Proofs.Manifest.Precedence
import HalLink.Proofs.Manifest.Validation
import HalLink.Proofs.Manifest.Writing
import HalLink.Proofs.Routing
import HalLink.Proofs.Routing.Sources
import HalLink.Proofs.Toml.Keys
import HalLink.Proofs.Version.Decimal
