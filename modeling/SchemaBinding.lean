import SchemaBinding.Main
import SchemaBinding.Proofs.Resolution.Reach
import SchemaBinding.Proofs.Resolution.Inheritance
import SchemaBinding.Proofs.Resolution.Schemas
import SchemaBinding.Proofs.Resolution.Coverage
import SchemaBinding.Proofs.Resolution.Definitions
import SchemaBinding.Proofs.Classes.Within
import SchemaBinding.Proofs.Classes.Built
import SchemaBinding.Proofs.Classes.Simplified
import SchemaBinding.Proofs.Classes.Anchored
import SchemaBinding.Proofs.Classes.Nested
import SchemaBinding.Proofs.Packages.Assigned
import SchemaBinding.Proofs.Packages.Traceless
import SchemaBinding.Proofs.Reading.Kept
import SchemaBinding.Proofs.Reading.Foreign
import SchemaBinding.Proofs.Reading.Scopes
import SchemaBinding.Proofs.Reading.Texts
import SchemaBinding.Proofs.Packages.Precedence
import SchemaBinding.Proofs.Occurrences.ContentModel
import SchemaBinding.Proofs.Occurrences.Flattened
import SchemaBinding.Proofs.Occurrences.Bounds
import SchemaBinding.Proofs.Occurrences.Fits
import SchemaBinding.Proofs.Occurrences.Inlined
import SchemaBinding.Proofs.Occurrences.Merged
import SchemaBinding.Proofs.Occurrences.Declared
import SchemaBinding.Proofs.Occurrences.Origins
import SchemaBinding.Proofs.Occurrences.Sound
import SchemaBinding.Proofs.Packages.Roots
import SchemaBinding.Proofs.Packages.Files
import SchemaBinding.Proofs.Resolution.Dependencies
import SchemaBinding.Proofs.Resolution.Adopted
import SchemaBinding.Proofs.Resolution.Growth
import SchemaBinding.Proofs.Packages.Repeated
import SchemaBinding.Proofs.Downloads.Overwritten
import SchemaBinding.Proofs.Downloads.SelfContained
import SchemaBinding.Proofs.Downloads.Places
import SchemaBinding.Proofs.Downloads.Confined
import SchemaBinding.Proofs.Downloads.Complete
import SchemaBinding.Proofs.Downloads.Compared
import SchemaBinding.Proofs.Downloads.Beneath
import SchemaBinding.Proofs.Downloads.Relocated
import SchemaBinding.Proofs.Downloads.Replacements
import SchemaBinding.Proofs.Catalogs.Overriding
import SchemaBinding.Proofs.Downloads.Reported
import SchemaBinding.Proofs.Classes.Reduced
import SchemaBinding.Proofs.Occurrences.InOrder
import SchemaBinding.Proofs.Output.Bindings
import SchemaBinding.Proofs.Classes.GroupReferences
import SchemaBinding.Proofs.Output.Builtins
import SchemaBinding.Proofs.Output.Imports
import SchemaBinding.Proofs.Output.Named
import SchemaBinding.Proofs.Services.Extended
import SchemaBinding.Proofs.Classes.Unfolded
import SchemaBinding.Proofs.Occurrences.Products
import SchemaBinding.Proofs.Services.Prefixes
import SchemaBinding.Proofs.Classes.Joined
import SchemaBinding.Proofs.Downloads.Detours
import SchemaBinding.Proofs.Output.Apart
import SchemaBinding.Proofs.Locations.Fetched
