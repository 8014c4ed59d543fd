import MarkupLines.Dialect.Delimiter
import MarkupLines.Proofs.Dialect.AttributeScan
import MarkupLines.Proofs.Dialect.Compiling
import MarkupLines.Proofs.Dialect.Delimiting
import MarkupLines.Proofs.Dialect.Faults
import MarkupLines.Proofs.Dialect.Identity
import MarkupLines.Proofs.Dialect.SafeClosing
import MarkupLines.Proofs.Expansion.Content
import MarkupLines.Proofs.Expansion.Dependence
import MarkupLines.Proofs.Expansion.Opening
import MarkupLines.Proofs.Expansion.Protection
import MarkupLines.Proofs.Expansion.Repeating
import MarkupLines.Proofs.Expansion.Rewriting
import MarkupLines.Proofs.Expansion.Stability
import MarkupLines.Proofs.Expansion.Unbroken
import MarkupLines.Proofs.Regex.Iteration
import MarkupLines.Proofs.Region.Bounds
import MarkupLines.Proofs.Region.Closing
import MarkupLines.Proofs.Region.Containing
import MarkupLines.Proofs.Region.Provenance
import MarkupLines.Proofs.Region.Session
import MarkupLines.Proofs.Region.Sharing
import MarkupLines.Proofs.Region.Suppressing
import MarkupLines.Region.Translation
import MarkupLines.Settings
