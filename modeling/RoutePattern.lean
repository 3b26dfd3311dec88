import RoutePattern.Location
import RoutePattern.Numeral
import RoutePattern.Proofs.RoundTrip
import RoutePattern.Router
import RoutePattern.Proofs.Grammar
import RoutePattern.Proofs.Shape
import RoutePattern.Proofs.Union
import RoutePattern.Proofs.Append
import RoutePattern.Proofs.Seam
import RoutePattern.Proofs.ReadBack
import RoutePattern.Proofs.Dispatch
import RoutePattern.Proofs.Reordering
import RoutePattern.Proofs.Arguments
import RoutePattern.Proofs.Halves
import RoutePattern.Proofs.Recognized
import RoutePattern.Proofs.Removal
import RoutePattern.Proofs.Omission
import RoutePattern.Proofs.Grouping
import RoutePattern.Proofs.Targets
import RoutePattern.Proofs.Decimals
import RoutePattern.Proofs.ByteScan
