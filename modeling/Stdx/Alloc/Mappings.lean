import Stdx.Alloc.Mallocator
import Stdx.Alloc.VirtualBlocks

/-! # Mapped ranges

`VirtualMemoryAllocator::new` maps a range of its own and `drop` unmaps it. Over every
interleaving of any number of these allocators, with calls and writes of their clients in
between, what the system has mapped are the ranges of the allocators that are alive besides
those of its other users, so no mapping is lost and none is given back twice; the blocks of
different allocators are apart; and what is done with one allocator, `new` and `drop` included,
leaves alone what the clients of the others hold (`Stdx.Process.ranges_are_mapped`). The system
is assumed to map in the lower half of the address space.
-/

namespace Stdx

open Foundation

variable {w : Nat} {σ ι : Type*}

/-- `mmap` for private memory at any address, `munmap`, and what is mapped. -/
structure System (w : Nat) (σ : Type*) where
  mmap : σ → Memory w → Usize w → Usize w × σ × Memory w
  munmap : σ → Memory w → Usize w → Usize w → σ × Memory w
  mappings : σ → Set (Span w)

/-- `MAP_FAILED`. -/
def mapFailed (w : Nat) : Usize w := BitVec.allOnes w

/-- What the memory holds in all of the given spans is the same. -/
def Span.KeptIn (spans : Set (Span w)) (before after : Memory w) : Prop :=
  ∀ span ∈ spans, ∀ address, InSpan span.1 span.2 address → after address = before address

/-- The documented behaviour of the system: `mmap` refuses an empty range, and otherwise fails or
maps a new range; `munmap` takes a mapping back. Neither touches what other mappings hold. -/
structure System.Honest (sys : System w σ) : Prop where
  mapped : ∀ {state memory len addr after later},
    sys.mmap state memory len = (addr, after, later) → addr ≠ mapFailed w →
      0 < len.toNat ∧ sys.mappings after = insert (addr, len) (sys.mappings state) ∧
      (∀ span ∈ sys.mappings state, Span.Apart (addr, len) span) ∧
      Span.KeptIn (sys.mappings state) memory later
  failed : ∀ {state memory len after later},
    sys.mmap state memory len = (mapFailed w, after, later) →
      sys.mappings after = sys.mappings state ∧ Span.KeptIn (sys.mappings state) memory later
  unmapped : ∀ {state addr len} (memory : Memory w), (addr, len) ∈ sys.mappings state →
    sys.mappings (sys.munmap state memory addr len).1 = sys.mappings state \ {(addr, len)} ∧
      Span.KeptIn (sys.mappings state \ {(addr, len)}) memory
        (sys.munmap state memory addr len).2

/-- The system maps in the lower half of the address space. This is not documented of `mmap`: it
is so where the upper half is the kernel's. -/
def System.Low (sys : System w σ) : Prop :=
  ∀ {state memory len addr after later}, sys.mmap state memory len = (addr, after, later) →
    addr ≠ mapFailed w → addr.toNat + len.toNat < 2 ^ (w - 1)

/-- `virtual_memory_alloc`. -/
def virtualMemoryAlloc (sys : System w σ) (state : σ) (memory : Memory w) (size : Usize w) :
    Option (Usize w) × σ × Memory w :=
  match sys.mmap state memory size with
  | (ret, state, memory) =>
      if ret = mapFailed w then (none, state, memory) else (some ret, state, memory)

/-- `virtual_memory_free`. -/
def virtualMemoryFree (sys : System w σ) (state : σ) (memory : Memory w) (addr size : Usize w) :
    σ × Memory w :=
  sys.munmap state memory addr size

/-- `FixedBufferAllocator::from_raw_parts`. -/
def FixedBufferAllocator.fromRawParts (addr size : Usize w) : FixedBufferAllocator w where
  begin := addr
  end_ := addr + size

/-- `VirtualMemoryAllocator::new`. -/
def VirtualMemoryAllocator.map (sys : System w σ) (state : σ) (memory : Memory w)
    (size : Usize w) : Option (VirtualMemoryAllocator w) × σ × Memory w :=
  match virtualMemoryAlloc sys state memory size with
  | (addr, state, memory) =>
      (addr.map fun addr => ⟨addr, size, .fromRawParts addr size⟩, state, memory)

/-- `drop`. -/
def VirtualMemoryAllocator.drop (sys : System w σ) (state : σ) (memory : Memory w)
    (self : VirtualMemoryAllocator w) : σ × Memory w :=
  virtualMemoryFree sys state memory self.addr self.size

/-- The system, the memory, and the allocators that are alive with their live blocks. -/
structure Process (ι : Type*) (w : Nat) (σ : Type*) where
  system : σ
  memory : Memory w
  allocators : ι → Option (VirtualMemoryAllocator w × List (Block w))

/-- What is done with one of the allocators. -/
inductive ProcessCall (w : Nat)
  | new (size : Usize w)
  | client (call : HeapCall w)
  | drop

namespace Process

/-- A process without allocators. -/
def start (system : σ) (memory : Memory w) : Process ι w σ := ⟨system, memory, fun _ => none⟩

/-- The heap of an allocator. -/
def heap (process : Process ι w σ) (own : VirtualMemoryAllocator w × List (Block w)) :
    Heap w (VirtualMemoryAllocator w) := ⟨own.1, process.memory, own.2⟩

/-- The range of an allocator. -/
def range (own : VirtualMemoryAllocator w × List (Block w)) : Span w := (own.1.addr, own.1.size)

variable [DecidableEq ι]

/-- One call. -/
def step (sys : System w σ) (process : Process ι w σ) (call : ι × ProcessCall w) :
    Reply w × Process ι w σ :=
  match call.2, process.allocators call.1 with
  | .new size, none =>
      match VirtualMemoryAllocator.map sys process.system process.memory size with
      | (none, system, memory) => (.allocError, { process with system, memory })
      | (some vma, system, memory) =>
          (.done, ⟨system, memory, Function.update process.allocators call.1 (some (vma, []))⟩)
  | .client inner, some own =>
      let out := (VirtualMemoryAllocator.minimal w).step (process.heap own) inner
      (out.1, ⟨process.system, out.2.memory,
        Function.update process.allocators call.1 (some (out.2.state, out.2.live))⟩)
  | .drop, some own =>
      let out := own.1.drop sys process.system process.memory
      (.done, ⟨out.1, out.2, Function.update process.allocators call.1 none⟩)
  | .new _, some _ | .client _, none | .drop, none => (.done, process)

/-- The process as a machine. -/
def machine (ι : Type*) [DecidableEq ι] (sys : System w σ) :
    Machine (Process ι w σ) (ι × ProcessCall w) (Reply w) := ⟨step sys⟩

omit [DecidableEq ι] in
/-- What the language admits for an allocator that is alive or is not, with the precondition of
the trait; blocks that are taken for the last one are released above the others. -/
def AdmitsFor (process : Process ι w σ) :
    ProcessCall w → Option (VirtualMemoryAllocator w × List (Block w)) → Prop
  | .new _, none | .drop, some _ => True
  | .client inner, some own =>
      Minimal.Admits (process.heap own) inner ∧
        VirtualMemoryAllocator.ReleasesTopmost (process.heap own) inner
  | .new _, some _ | .client _, none | .drop, none => False

/-- What is admitted. -/
def Admits (process : Process ι w σ) (call : ι × ProcessCall w) : Prop :=
  process.AdmitsFor call.2 (process.allocators call.1)

instance (process : Process ι w σ) : ∀ call own, Decidable (process.AdmitsFor call own)
  | .new _, none | .drop, some _ => inferInstanceAs (Decidable True)
  | .client _, some _ => inferInstanceAs (Decidable (_ ∧ _))
  | .new _, some _ | .client _, none | .drop, none => inferInstanceAs (Decidable False)

instance (process : Process ι w σ) (call : ι × ProcessCall w) :
    Decidable (process.Admits call) :=
  inferInstanceAs (Decidable (process.AdmitsFor _ _))

/-- An allocator keeps to its range, which is not empty and in the lower half of the address
space. -/
def Keeps (own : VirtualMemoryAllocator w × List (Block w)) : Prop :=
  ∃ buffer : Buffer w, 0 < buffer.len.toNat ∧ buffer.stop ≤ 2 ^ (w - 1) ∧
    VirtualMemoryAllocator.Holds buffer own.1 own.2

/-- What is mapped are the ranges of the allocators besides those of other users, all of them
apart, and every allocator keeps to its range. -/
structure Sound (sys : System w σ) (foreign : Set (Span w)) (process : Process ι w σ) :
    Prop where
  mappings : sys.mappings process.system =
    {span | span ∈ foreign ∨ ∃ index, ∃ own ∈ process.allocators index, range own = span}
  keeps : ∀ index, ∀ own ∈ process.allocators index, Keeps own
  apart : ∀ first second, first ≠ second → ∀ own ∈ process.allocators first,
    ∀ other ∈ process.allocators second, Span.Apart (range own) (range other)
  foreign_apart : ∀ index, ∀ own ∈ process.allocators index, ∀ span ∈ foreign,
    Span.Apart (range own) span

/-- The blocks of different allocators are apart. -/
def BlocksApart (process : Process ι w σ) : Prop :=
  ∀ first second, first ≠ second → ∀ own ∈ process.allocators first,
    ∀ other ∈ process.allocators second, ∀ block ∈ own.2, ∀ neighbour ∈ other.2,
      block.Apart neighbour

/-- What a call on one allocator does: the other ones stay, with what their clients hold, and the
clients of the same one are isolated from each other. -/
structure Separate (sys : System w σ) (process : Process ι w σ) (call : ι × ProcessCall w) :
    Prop where
  others : ∀ index, index ≠ call.1 → ∀ own ∈ process.allocators index,
    own ∈ ((machine ι sys).next process call).allocators index ∧
      KeptOn own.2 process.memory ((machine ι sys).next process call).memory
  clients : ∀ inner, call.2 = .client inner → ∀ own ∈ process.allocators call.1,
    (VirtualMemoryAllocator.minimal w).Isolated (process.heap own) inner

end Process

/-! ## Ranges -/

/-- The addresses between the ends of a span are in it. -/
theorem inSpan_of_bounds {start count address : Usize w} (above : start.toNat ≤ address.toNat)
    (below : address.toNat < start.toNat + count.toNat) : InSpan start count address := by
  have offset : (address - start).toNat = address.toNat - start.toNat :=
    BitVec.toNat_sub_of_le (BitVec.le_def.mpr above)
  unfold InSpan
  rw [BitVec.lt_def, offset]
  omega

namespace World.BlockIn

variable {buffer : Buffer w} {block : Block w}

/-- The addresses of a block are addresses of its buffer. -/
theorem inSpan (inside : World.BlockIn buffer block) {address : Usize w}
    (covers : block.Covers address) : InSpan buffer.start buffer.len address := by
  have start := inside.start
  have stop := inside.stop
  have wrap := buffer.no_wrap
  unfold Buffer.stop at stop
  unfold Block.stop Block.start Block.size at stop
  unfold Block.start at start
  obtain ⟨above, below⟩ := bounds_of_inSpan (stop.trans wrap.le) covers
  exact inSpan_of_bounds (start.trans above) (below.trans_le stop)

end World.BlockIn

namespace VirtualMemoryAllocator

variable {buffer : Buffer w} {world : Heap w (VirtualMemoryAllocator w)}

/-- A resizing writes to the new block, which is in the range. -/
theorem resized_in_range (holds : Holds buffer world.state world.live)
    (low : buffer.stop ≤ 2 ^ (w - 1)) (block : Block w) {newLayout : Layout w} {count : Usize w}
    (few : count.toNat ≤ newLayout.size.toNat) {address : Usize w}
    (outside : ¬ InSpan buffer.start buffer.len address) :
    ((minimal w).resized world block newLayout count).2.memory address = world.memory address := by
  rcases allocate_cases world.state world.memory newLayout with
    ⟨_, equal⟩ | ⟨slice, fba, granted, equal⟩
  · simp only [Minimal.resized, equal]
  · have inside := (holds.contained.allocate low granted).1.blocks _ List.mem_cons_self
    have apart : ¬ InSpan slice.ptr count address := by
      intro written
      apply outside
      apply inside.inSpan
      exact BitVec.lt_def.mpr (lt_of_lt_of_le (BitVec.lt_def.mp written) few)
    simp only [Minimal.resized, equal]
    exact if_neg apart

/-- A call changes nothing outside the range. -/
theorem changes_in_range (holds : Holds buffer world.state world.live)
    (low : buffer.stop ≤ 2 ^ (w - 1)) (call : HeapCall w) (admitted : Minimal.Admits world call)
    {address : Usize w} (outside : ¬ InSpan buffer.start buffer.len address) :
    ((minimal w).step world call).2.memory address = world.memory address := by
  rcases call with (layout | block | ⟨block, newLayout⟩ | ⟨block, newLayout⟩) |
    ⟨block, index, byte⟩
  · rcases allocate_cases world.state world.memory layout with
      ⟨_, equal⟩ | ⟨slice, fba, granted, equal⟩
    · simp only [Minimal.step, equal]
    · simp only [Minimal.step, equal]
  · rfl
  · exact resized_in_range holds low block admitted.2 outside
  · exact resized_in_range holds low block (Nat.le_refl _) outside
  · obtain ⟨member, within⟩ := admitted
    apply Function.update_of_ne
    rintro rfl
    exact outside ((holds.contained.blocks block member).inSpan (inSpan_add within))

/-- A call keeps what the allocator keeps, and isolates the clients. -/
theorem call_isolated (holds : Holds buffer world.state world.live)
    (low : buffer.stop ≤ 2 ^ (w - 1)) (call : HeapCall w) (admitted : Minimal.Admits world call)
    (topmost : ReleasesTopmost world call) :
    (minimal w).Isolated world call ∧
      Holds buffer ((minimal w).step world call).2.state ((minimal w).step world call).2.live := by
  have allowed : (discipline buffer low).Allows world call := by
    rcases call with (layout | block | ⟨block, newLayout⟩ | ⟨block, newLayout⟩) |
      ⟨block, index, byte⟩
    · exact trivial
    · exact topmost
    · exact resizes_of_topmost low topmost
    · exact resizes_of_topmost low topmost
    · exact trivial
  exact (discipline buffer low).step_isolated holds call admitted allowed

/-- Everything `new` can do. -/
theorem map_cases (sys : System w σ) (state : σ) (memory : Memory w) (size : Usize w) :
    (∃ after later, sys.mmap state memory size = (mapFailed w, after, later) ∧
      map sys state memory size = (none, after, later)) ∨
    ∃ addr after later, addr ≠ mapFailed w ∧ sys.mmap state memory size = (addr, after, later) ∧
      map sys state memory size =
        (some ⟨addr, size, .fromRawParts addr size⟩, after, later) := by
  rcases answer : sys.mmap state memory size with ⟨ret, after, later⟩
  by_cases failed : ret = mapFailed w
  · subst failed
    exact .inl ⟨after, later, rfl, by
      simp only [map, virtualMemoryAlloc, answer, ↓reduceIte, Option.map_none]⟩
  · exact .inr ⟨ret, after, later, failed, rfl, by
      simp only [map, virtualMemoryAlloc, answer, failed, ↓reduceIte, Option.map_some]⟩

end VirtualMemoryAllocator

/-! ## One step of the process -/

/-- A span that is not empty is not apart from itself. -/
theorem Span.Apart.ne {first second : Span w} (apart : Span.Apart first second)
    (occupied : 0 < first.2.toNat) : first ≠ second := by
  intro same
  have inside : InSpan first.1 first.2 (first.1 + 0) := inSpan_add occupied
  exact apart _ inside (same ▸ inside)

namespace Process

variable {sys : System w σ} {foreign : Set (Span w)} {process : Process ι w σ} {index : ι}
  {own : VirtualMemoryAllocator w × List (Block w)} {before after : Memory w}

/-- The range of an allocator has an address. -/
theorem Keeps.occupied (keeps : Keeps own) : 0 < (range own).2.toNat := by
  obtain ⟨buffer, positive, _, holds⟩ := keeps
  unfold range
  rw [holds.mapped.2]
  exact positive

/-- The addresses of a live block are in the range. -/
theorem Keeps.inSpan (keeps : Keeps own) {block : Block w} (live : block ∈ own.2)
    {address : Usize w} (covers : block.Covers address) :
    InSpan (range own).1 (range own).2 address := by
  obtain ⟨buffer, _, _, holds⟩ := keeps
  have inside := (holds.contained.blocks block live).inSpan covers
  unfold range
  rwa [holds.mapped.1, holds.mapped.2]

/-- What stays in the range of an allocator stays in its blocks. -/
theorem Keeps.keptOn (keeps : Keeps own)
    (kept : ∀ address, InSpan (range own).1 (range own).2 address →
      after address = before address) : KeptOn own.2 before after :=
  fun _ live _ covers => kept _ (keeps.inSpan live covers)

theorem Sound.range_mem (sound : Sound sys foreign process)
    (alive : own ∈ process.allocators index) : range own ∈ sys.mappings process.system := by
  rw [sound.mappings]
  exact .inr ⟨index, own, alive, rfl⟩

/-- What is mapped besides the range of one allocator. -/
def rest (foreign : Set (Span w)) (process : Process ι w σ) (index : ι) : Set (Span w) :=
  {span | span ∈ foreign ∨ ∃ other ≠ index, ∃ own ∈ process.allocators other, range own = span}

/-- The range of one allocator besides the rest. -/
theorem Sound.mappings_eq (sound : Sound sys foreign process) (index : ι) :
    sys.mappings process.system =
      rest foreign process index ∪
        {span | ∃ own ∈ process.allocators index, range own = span} := by
  rw [sound.mappings]
  ext span
  constructor
  · rintro (other | ⟨owner, own, alive, equal⟩)
    · exact .inl (.inl other)
    · by_cases same : owner = index
      · subst same
        exact .inr ⟨own, alive, equal⟩
      · exact .inl (.inr ⟨owner, same, own, alive, equal⟩)
  · rintro ((other | ⟨owner, _, own, alive, equal⟩) | ⟨own, alive, equal⟩)
    · exact .inl other
    · exact .inr ⟨owner, own, alive, equal⟩
    · exact .inr ⟨index, own, alive, equal⟩

/-- The ranges where there is one allocator. -/
theorem ranges_some (own : VirtualMemoryAllocator w × List (Block w)) :
    {span | ∃ other ∈ some own, range other = span} = {range own} := by
  ext span
  constructor
  · rintro ⟨_, ⟨⟩, rfl⟩
    rfl
  · rintro rfl
    exact ⟨own, rfl, rfl⟩

/-- The ranges where there is no allocator. -/
theorem ranges_none :
    {span | ∃ own ∈ (none : Option (VirtualMemoryAllocator w × List (Block w))),
      range own = span} = ∅ := by
  simp only [Option.not_mem_none, false_and, exists_false, Set.ofPred_false]

/-- The range of an allocator is apart from all else that is mapped. -/
theorem Sound.apart_rest (sound : Sound sys foreign process)
    (alive : own ∈ process.allocators index) :
    ∀ span ∈ rest foreign process index, Span.Apart (range own) span := by
  rintro span (other | ⟨owner, different, neighbour, member, rfl⟩)
  · exact sound.foreign_apart index own alive span other
  · exact sound.apart index owner different.symm own alive neighbour member

theorem Sound.blocksApart (sound : Sound sys foreign process) : BlocksApart process := by
  intro first second different own alive other member block live neighbour near address covers
  have inside := (sound.keeps first own alive).inSpan live covers
  intro covered
  exact sound.apart first second different own alive other member address inside
    ((sound.keeps second other member).inSpan near covered)

variable [DecidableEq ι]

/-- Entries after an update. -/
theorem mem_update {value : Option (VirtualMemoryAllocator w × List (Block w))} {other : ι}
    (member : own ∈ Function.update process.allocators index value other) :
    other = index ∧ own ∈ value ∨ other ≠ index ∧ own ∈ process.allocators other := by
  by_cases same : other = index
  · subst same
    rw [Function.update_self] at member
    exact .inl ⟨rfl, member⟩
  · rw [Function.update_of_ne same] at member
    exact .inr ⟨same, member⟩

/-- The other entries stay. -/
theorem mem_update_of_ne {value : Option (VirtualMemoryAllocator w × List (Block w))}
    {other : ι} (different : other ≠ index) (alive : own ∈ process.allocators other) :
    own ∈ Function.update process.allocators index value other := by
  rwa [Function.update_of_ne different]

/-- Another allocator at one of the indices, whose range is apart from all else. -/
theorem Sound.update (sound : Sound sys foreign process) (system : σ) (memory : Memory w)
    (value : Option (VirtualMemoryAllocator w × List (Block w)))
    (mappings : sys.mappings system =
      rest foreign process index ∪ {span | ∃ own ∈ value, range own = span})
    (keeps : ∀ own ∈ value, Keeps own)
    (apart : ∀ own ∈ value, ∀ span ∈ rest foreign process index, Span.Apart (range own) span) :
    Sound sys foreign ⟨system, memory, Function.update process.allocators index value⟩ where
  mappings := by
    rw [mappings]
    ext span
    constructor
    · rintro ((other | ⟨owner, different, own, alive, equal⟩) | ⟨own, member, equal⟩)
      · exact .inl other
      · exact .inr ⟨owner, own, mem_update_of_ne different alive, equal⟩
      · refine .inr ⟨index, own, ?_, equal⟩
        change own ∈ Function.update process.allocators index value index
        rwa [Function.update_self]
    · rintro (other | ⟨owner, own, alive, equal⟩)
      · exact .inl (.inl other)
      · rcases mem_update alive with ⟨_, member⟩ | ⟨different, member⟩
        · exact .inr ⟨own, member, equal⟩
        · exact .inl (.inr ⟨owner, different, own, member, equal⟩)
  keeps owner own alive := by
    rcases mem_update alive with ⟨_, member⟩ | ⟨_, member⟩
    · exact keeps own member
    · exact sound.keeps owner own member
  apart first second different own alive other near := by
    rcases mem_update alive with ⟨rfl, member⟩ | ⟨outside, member⟩
    · rcases mem_update near with ⟨rfl, _⟩ | ⟨beside, neighbour⟩
      · exact absurd rfl different
      · exact apart own member _ (.inr ⟨second, beside, other, neighbour, rfl⟩)
    · rcases mem_update near with ⟨rfl, neighbour⟩ | ⟨beside, neighbour⟩
      · have swapped := apart other neighbour _ (.inr ⟨first, outside, own, member, rfl⟩)
        exact fun address left right => swapped address right left
      · exact sound.apart first second different own member other neighbour
  foreign_apart owner own alive span other := by
    rcases mem_update alive with ⟨_, member⟩ | ⟨_, member⟩
    · exact apart own member span (.inl other)
    · exact sound.foreign_apart owner own member span other

omit [DecidableEq ι] in
/-- What the system keeps in the mapped ranges of the others stays in their blocks. -/
theorem Sound.others_kept (sound : Sound sys foreign process)
    (kept : Span.KeptIn (rest foreign process index) before after) {other : ι}
    (different : other ≠ index) (alive : own ∈ process.allocators other) :
    KeptOn own.2 before after := by
  apply (sound.keeps other own alive).keptOn
  exact kept (range own) (.inr ⟨other, different, own, alive, rfl⟩)

/-- `new`. -/
theorem Sound.new (honest : sys.Honest) (maps : sys.Low) (sound : Sound sys foreign process)
    (absent : process.allocators index = none) (size : Usize w) :
    Separate sys process (index, .new size) ∧
      Sound sys foreign ((machine ι sys).next process (index, .new size)) := by
  have split : sys.mappings process.system = rest foreign process index := by
    rw [sound.mappings_eq index, absent, ranges_none, Set.union_empty]
  rcases VirtualMemoryAllocator.map_cases sys process.system process.memory size with
    ⟨state, later, answer, equal⟩ | ⟨addr, state, later, valid, answer, equal⟩
  · obtain ⟨same, kept⟩ := honest.failed answer
    have after : (machine ι sys).next process (index, .new size) =
        { process with system := state, memory := later } := by
      simp only [Machine.next, machine, step, absent, equal]
    refine ⟨⟨fun other different own alive => ?_, fun _ client => by cases client⟩, ?_⟩
    · rw [after]
      exact ⟨alive, sound.others_kept (split ▸ kept) different alive⟩
    · rw [after]
      exact ⟨same.trans sound.mappings, sound.keeps, sound.apart, sound.foreign_apart⟩
  · obtain ⟨positive, inserted, fresh, kept⟩ := honest.mapped answer valid
    have low := maps answer valid
    have after : (machine ι sys).next process (index, .new size) =
        ⟨state, later, Function.update process.allocators index
          (some (⟨addr, size, .fromRawParts addr size⟩, []))⟩ := by
      simp only [Machine.next, machine, step, absent, equal]
    refine ⟨⟨fun other different own alive => ?_, fun _ client => by cases client⟩, ?_⟩
    · rw [after]
      exact ⟨mem_update_of_ne different alive,
        sound.others_kept (split ▸ kept) different alive⟩
    · rw [after]
      apply sound.update
      · rw [inserted, split, Set.insert_eq, Set.union_comm, ranges_some]
        rfl
      · rintro _ ⟨⟩
        have half : 2 ^ (w - 1) ≤ 2 ^ w := Nat.pow_le_pow_right (by decide) (Nat.sub_le w 1)
        have small : size.toNat ≤ isizeMax w := by unfold isizeMax; omega
        let buffer : Buffer w := ⟨addr, size, small, low.trans_le half⟩
        have fresh : VirtualMemoryAllocator.new buffer = ⟨addr, size, .fromRawParts addr size⟩ :=
          rfl
        rw [← fresh]
        exact ⟨buffer, positive, low.le, Region.Filled.nil _,
          World.contained_new buffer process.memory, rfl, rfl⟩
      · rintro _ ⟨⟩ span member
        exact fresh span (split ▸ member)

/-- A call or a write of a client. -/
theorem Sound.client (sound : Sound sys foreign process)
    (alive : own ∈ process.allocators index) (inner : HeapCall w)
    (admitted : Minimal.Admits (process.heap own) inner)
    (topmost : VirtualMemoryAllocator.ReleasesTopmost (process.heap own) inner) :
    Separate sys process (index, .client inner) ∧
      Sound sys foreign ((machine ι sys).next process (index, .client inner)) := by
  obtain ⟨buffer, positive, low, holds⟩ := sound.keeps index own alive
  let world := process.heap own
  let later := ((VirtualMemoryAllocator.minimal w).step world inner).2
  have valid : VirtualMemoryAllocator.Holds buffer world.state world.live := holds
  obtain ⟨isolated, stays⟩ := VirtualMemoryAllocator.call_isolated valid low inner admitted topmost
  have same : range (later.state, later.live) = range own := by
    unfold range
    rw [stays.mapped.1, stays.mapped.2, holds.mapped.1, holds.mapped.2]
  have after : (machine ι sys).next process (index, .client inner) =
      ⟨process.system, later.memory,
        Function.update process.allocators index (some (later.state, later.live))⟩ := by
    simp only [Machine.next, machine, step, Option.mem_def.mp alive]
    rfl
  constructor
  · refine ⟨fun other different neighbour member => ?_, fun other client owner member => ?_⟩
    · rw [after]
      constructor
      · exact mem_update_of_ne different member
      · apply (sound.keeps other neighbour member).keptOn
        intro address inside
        apply VirtualMemoryAllocator.changes_in_range valid low inner admitted
        rw [← holds.mapped.1, ← holds.mapped.2]
        exact sound.apart other index different neighbour member own alive address inside
    · cases client
      cases Option.mem_unique alive member
      exact isolated
  · rw [after]
    apply sound.update
    · rw [sound.mappings_eq index, Option.mem_def.mp alive, ranges_some, ranges_some, same]
    · rintro _ ⟨⟩
      exact ⟨buffer, positive, low, stays⟩
    · rintro _ ⟨⟩ span member
      rw [same]
      exact sound.apart_rest alive span member

/-- `drop`. -/
theorem Sound.drop (honest : sys.Honest) (sound : Sound sys foreign process)
    (alive : own ∈ process.allocators index) :
    Separate sys process (index, .drop) ∧
      Sound sys foreign ((machine ι sys).next process (index, .drop)) := by
  have unmapped : sys.mappings process.system \ {range own} = rest foreign process index := by
    rw [sound.mappings_eq index, Option.mem_def.mp alive, ranges_some]
    ext span
    constructor
    · rintro ⟨other | same, different⟩
      · exact other
      · exact absurd same different
    · intro other
      have apart := sound.apart_rest alive span other
      exact ⟨.inl other, (apart.ne (sound.keeps index own alive).occupied).symm⟩
  obtain ⟨removed, kept⟩ := honest.unmapped process.memory (sound.range_mem alive)
  change Span.KeptIn (sys.mappings process.system \ {range own}) _ _ at kept
  have after : (machine ι sys).next process (index, .drop) =
      ⟨(own.1.drop sys process.system process.memory).1,
        (own.1.drop sys process.system process.memory).2,
        Function.update process.allocators index none⟩ := by
    simp only [Machine.next, machine, step, Option.mem_def.mp alive]
  rw [unmapped] at kept
  refine ⟨⟨fun other different own alive => ?_, fun _ client => by cases client⟩, ?_⟩
  · rw [after]
    exact ⟨mem_update_of_ne different alive, sound.others_kept kept different alive⟩
  · rw [after]
    apply sound.update
    · rw [ranges_none, Set.union_empty]
      exact removed.trans unmapped
    · rintro _ ⟨⟩
    · rintro _ ⟨⟩

/-- One call. -/
theorem Sound.step (honest : sys.Honest) (low : sys.Low) (sound : Sound sys foreign process)
    (call : ι × ProcessCall w) (admitted : Admits process call) :
    Separate sys process call ∧ Sound sys foreign ((machine ι sys).next process call) := by
  obtain ⟨index, call⟩ := call
  unfold Admits at admitted
  cases found : process.allocators index with
  | none =>
      rw [found] at admitted
      cases call with
      | new size => exact sound.new honest low found size
      | client inner => exact admitted.elim
      | drop => exact admitted.elim
  | some own =>
      rw [found] at admitted
      cases call with
      | new size => exact admitted.elim
      | client inner => exact sound.client found inner admitted.1 admitted.2
      | drop => exact sound.drop honest found

omit [DecidableEq ι] in
/-- Before the first call all that is mapped belongs to other users. -/
theorem sound_start (sys : System w σ) (state : σ) (memory : Memory w) :
    Sound sys (sys.mappings state) (start state memory : Process ι w σ) where
  mappings := by
    ext span
    constructor
    · exact .inl
    · rintro (other | ⟨_, _, ⟨⟩, _⟩)
      exact other
  keeps := by rintro index own ⟨⟩
  apart := by rintro first second different own ⟨⟩
  foreign_apart := by rintro index own ⟨⟩

/-- **What is mapped belongs to the live allocators.** In every interleaving of `new`, `drop`
and the calls and writes of the clients of any number of allocators, over a system that behaves
as documented and maps in the lower half of the address space. -/
theorem ranges_are_mapped (sys : System w σ) (honest : sys.Honest) (low : sys.Low) (state : σ)
    (memory : Memory w) (calls : List (ι × ProcessCall w))
    (admitted : (machine ι sys).Along Admits (start state memory) calls) :
    let final := (machine ι sys).final (start state memory) calls
    Sound sys (sys.mappings state) final ∧ BlocksApart final ∧
      (machine ι sys).Along (Separate sys) (start state memory) calls := by
  have begins : Sound sys (sys.mappings state) (start state memory : Process ι w σ) :=
    sound_start sys state memory
  have sound : Sound sys (sys.mappings state) ((machine ι sys).final (start state memory) calls) :=
    admitted.invariant (Sound sys (sys.mappings state))
      (fun process call sound admitted => (sound.step honest low call admitted).2) begins
  exact ⟨sound, sound.blocksApart, admitted.of_invariant (Sound sys (sys.mappings state))
    (fun process call sound admitted => sound.step honest low call admitted) begins⟩

end Process

/-- The first address above the mapped ones, if there is room. -/
def System.topmost (spans : List (Span 64)) : Usize 64 :=
  BitVec.ofNat 64 ((spans.map fun span => span.1.toNat + span.2.toNat).foldl max 0x1000)

/-- A system that maps every range above the mapped ones, with zeros in it. -/
def System.ascending : System 64 (List (Span 64)) where
  mmap spans memory len :=
    let addr := topmost spans
    if (0 < len.toNat ∧ addr.toNat + len.toNat < 2 ^ 63) ∧
        spans.all (Mallocator.IsBelow addr) = true then
      (addr, (addr, len) :: spans, fun address =>
        if InSpan addr len address then 0 else memory address)
    else
      (mapFailed 64, spans, memory)
  munmap spans memory addr len := (spans.filter fun span => span ≠ (addr, len), memory)
  mappings spans := {span | span ∈ spans}

theorem System.ascending_honest : System.ascending.Honest where
  mapped {spans memory len addr after later} answer valid := by
    simp only [ascending] at answer
    split at answer
    · rename_i room
      cases answer
      have above (span : Span 64) (member : span ∈ spans) :=
        (of_decide_eq_true (List.all_eq_true.mp room.2 span member)).2
      have fits : (topmost spans).toNat + len.toNat ≤ 2 ^ 64 := by omega
      have apart (span : Span 64) (member : span ∈ spans) :
          Span.Apart (topmost spans, len) span := by
        intro address inside other
        have low := (bounds_of_inSpan fits inside).1
        have high := (bounds_of_inSpan ((above span member).trans (BitVec.isLt _).le) other).2
        exact absurd (high.trans_le (above span member)) (Nat.not_lt.mpr low)
      refine ⟨room.1.1, ?_, apart, ?_⟩
      · ext span
        exact List.mem_cons
      · intro span member address inside
        exact if_neg fun written => apart span member address written inside
    · cases answer
      exact absurd rfl valid
  failed {spans memory len after later} answer := by
    simp only [ascending] at answer
    split at answer
    · rename_i room
      have same : topmost spans = mapFailed 64 := congrArg Prod.fst answer
      have low := (Nat.le_add_right _ _).trans_lt room.1.2
      rw [same] at low
      exact absurd low (by decide)
    · cases answer
      exact ⟨rfl, fun span member address inside => rfl⟩
  unmapped {spans addr len} memory _ := by
    refine ⟨?_, fun span member address inside => rfl⟩
    ext span
    exact List.mem_filter.trans (and_congr_right fun _ => decide_eq_true_iff)

theorem System.ascending_low : System.ascending.Low := by
  intro spans memory len addr after later answer valid
  simp only [ascending] at answer
  split at answer
  · rename_i room
    cases answer
    exact room.1.2
  · cases answer
    exact absurd rfl valid

namespace Process

variable [DecidableEq ι]

/-- Two allocators; the client of the first one writes to its word, which stays while the
second one is dropped. -/
def twoMappedCalls : List (Bool × ProcessCall 64) :=
  [(false, .new 0x1000), (true, .new 0x100), (false, .client (.call (.allocate .word))),
    (false, .client (.write ⟨0x1000, .word⟩ 0 7)), (true, .client (.call (.allocate .twoWords))),
    (true, .drop)]

theorem twoMappedCalls_mapped :
    let final := (machine Bool System.ascending).final (start [] fun _ => 0) twoMappedCalls
    Sound System.ascending (System.ascending.mappings []) final ∧ BlocksApart final ∧
      (machine Bool System.ascending).Along (Separate System.ascending) (start [] fun _ => 0)
        twoMappedCalls :=
  ranges_are_mapped System.ascending System.ascending_honest System.ascending_low [] (fun _ => 0)
    twoMappedCalls (by decide)

end Process

end Stdx
