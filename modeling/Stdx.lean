import Stdx.Foundation.Machine
import Stdx.Foundation.Region
import Stdx.Alloc.Disjointness
import Stdx.Alloc.Containment
import Stdx.Alloc.StackDiscipline
import Stdx.Alloc.Release
import Stdx.Alloc.Relocation
import Stdx.Alloc.FirstFit
import Stdx.Alloc.Arena
import Stdx.Alloc.VirtualMemory
import Stdx.Alloc.String
import Stdx.Alloc.Mallocator
import Stdx.Alloc.Mappings
import Stdx.Alloc.VirtualBlocks
import Stdx.Array.Parts
import Stdx.Array.Capacity
import Stdx.Array.Stack
import Stdx.Array.InPlace
import Stdx.Array.RemovalReach
import Stdx.Array.Reservation
import Stdx.Array.Failure
import Stdx.Array.Creation
import Stdx.Array.Shared
import Stdx.Array.SharedMemory
import Stdx.Array.Outstanding
import Stdx.Array.Wide
import Stdx.Array.Editing
import Stdx.Rust.StructItems
import Stdx.Rust.TypeText
import Stdx.Rust.Visibility
import Stdx.Rust.TypeAlias
import Stdx.Rust.EnumVariants
import Stdx.Rust.FunctionItems
import Stdx.Rust.Modules
import Stdx.Rust.Display
import Stdx.Rust.Provenance
import Stdx.Soa.Offsets
import Stdx.Soa.Resize
import Stdx.Soa.Growth
import Stdx.Soa.DeriveInput
import Stdx.Soa.Placement
import Stdx.Soa.Expansion
import Stdx.Soa.Renewal
