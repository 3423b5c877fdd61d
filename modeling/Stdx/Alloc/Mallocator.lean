import Stdx.Alloc.Containment
import Stdx.Alloc.Provided

/-! # The C allocator

`Mallocator` hands its calls to `posix_memalign` and `free` of the C library, with the
alignment rounded up to one that the library accepts. The library is not part of the
repository: it is a parameter, with its documented behaviour as the hypothesis. Over every
run that asks for no empty block, the blocks that the library has handed out are those that
are live, besides those of its other users; they are apart and aligned, and isolated from
each other (`Stdx.Mallocator.live_is_outstanding`).
-/

namespace Stdx

open Foundation

variable {w : Nat} {σ : Type*}

/-- `usize::next_multiple_of`. -/
def Usize.nextMultipleOf (self rhs : Usize w) : Usize w :=
  let remainder := self % rhs
  if remainder = 0 then self else self + (rhs - remainder)

/-- A power of two rounded up to a multiple of another one is the larger one. -/
theorem Usize.toNat_nextMultipleOf {self rhs : Usize w} (power : self.toNat.isPowerOfTwo)
    (other : rhs.toNat.isPowerOfTwo) :
    (self.nextMultipleOf rhs).toNat = max self.toNat rhs.toNat := by
  have remainder : (self % rhs).toNat = self.toNat % rhs.toNat := BitVec.toNat_umod
  unfold nextMultipleOf
  rcases Nat.lt_or_ge self.toNat rhs.toNat with smaller | larger
  · have positive := Nat.pos_of_isPowerOfTwo power
    rw [Nat.mod_eq_of_lt smaller] at remainder
    have nonzero : self % rhs ≠ 0 := fun zero => by
      rw [zero] at remainder
      exact absurd remainder positive.ne
    have same : self % rhs = self := BitVec.eq_of_toNat_eq remainder
    rw [if_neg nonzero, same, Nat.max_eq_right smaller.le, BitVec.add_comm,
      BitVec.sub_add_cancel]
  · have divides : rhs.toNat ∣ self.toNat := dvd_of_isPowerOfTwo other power larger
    have zero : self % rhs = 0 :=
      BitVec.eq_of_toNat_eq (remainder.trans (Nat.mod_eq_zero_of_dvd divides))
    rw [if_pos zero, Nat.max_eq_left larger]

/-- A pointer with the number of bytes behind it. -/
abbrev Span (w : Nat) := Usize w × Usize w

/-- No address is one of both spans. -/
def Span.Apart (first second : Span w) : Prop :=
  ∀ address, InSpan first.1 first.2 address → ¬ InSpan second.1 second.2 address

/-- What the memory holds in the given spans is the same. -/
def Span.KeptOn (spans : List (Span w)) (before after : Memory w) : Prop :=
  ∀ span ∈ spans, ∀ address, InSpan span.1 span.2 address → after address = before address

/-- What the C library knows of a block. -/
def Block.span (block : Block w) : Span w := (block.ptr, block.layout.size)

theorem keptOn_of_spans {blocks : List (Block w)} {others : List (Span w)}
    {before after : Memory w}
    (kept : Span.KeptOn (blocks.map Block.span ++ others) before after) :
    KeptOn blocks before after := by
  intro block member address inside
  apply kept block.span _ address inside
  exact List.mem_append_left _ (List.mem_map_of_mem member)

/-- The functions of the C library, with what it has handed out and not got back. The
pointer of a failing `posix_memalign` is `none`. -/
structure CLibrary (w : Nat) (σ : Type*) where
  posixMemalign : σ → Memory w → Usize w → Usize w → Option (Usize w) × σ × Memory w
  free : σ → Memory w → Usize w → σ × Memory w
  outstanding : σ → List (Span w)

/-- The documented behaviour of the library: a successful `posix_memalign` returns memory of
its own with the alignment, if that is a power of two and a multiple of the given one;
`free` takes back a pointer that is out. Neither touches what others hold. About requests of
no bytes nothing is said, since they may be answered with the null pointer. -/
structure CLibrary.Honest (lib : CLibrary w σ) (pointerAlign : Usize w) : Prop where
  granted : ∀ {state memory align size ptr after later}, align.toNat.isPowerOfTwo →
    pointerAlign.toNat ∣ align.toNat → 0 < size.toNat →
    lib.posixMemalign state memory align size = (some ptr, after, later) →
      (ptr ≠ 0 ∧ align.toNat ∣ ptr.toNat) ∧
      (lib.outstanding after).Perm ((ptr, size) :: lib.outstanding state) ∧
      (∀ span ∈ lib.outstanding state, Span.Apart (ptr, size) span) ∧
      Span.KeptOn (lib.outstanding state) memory later
  refused : ∀ {state memory align size after later}, align.toNat.isPowerOfTwo →
    pointerAlign.toNat ∣ align.toNat → 0 < size.toNat →
    lib.posixMemalign state memory align size = (none, after, later) →
      (lib.outstanding after).Perm (lib.outstanding state) ∧
      Span.KeptOn (lib.outstanding state) memory later
  freed : ∀ {state ptr size others} (memory : Memory w),
    (lib.outstanding state).Perm ((ptr, size) :: others) →
      (lib.outstanding (lib.free state memory ptr).1).Perm others ∧
      Span.KeptOn others memory (lib.free state memory ptr).2

namespace Mallocator

/-- `Mallocator::allocate`. -/
def allocate (lib : CLibrary w σ) (pointerAlign : Usize w) (state : σ) (memory : Memory w)
    (layout : Layout w) : Option (Slice w) × σ × Memory w :=
  let align := layout.align.nextMultipleOf pointerAlign
  match lib.posixMemalign state memory align layout.size with
  | (none, state, memory) => (none, state, memory)
  | (some memptr, state, memory) => (some ⟨memptr, layout.size⟩, state, memory)

/-- `Mallocator::deallocate`. -/
def deallocate (lib : CLibrary w σ) (state : σ) (memory : Memory w) (ptr : Usize w)
    (_ : Layout w) : σ × Memory w :=
  lib.free state memory ptr

/-- `Mallocator`, with the alignment of a pointer. -/
def minimal (lib : CLibrary w σ) (pointerAlign : Usize w) : Minimal w σ where
  allocate := allocate lib pointerAlign
  deallocate := deallocate lib

/-- The library has handed out the live blocks besides those of its other users, and the
live blocks are apart and placed as their layouts ask. -/
structure Owns (lib : CLibrary w σ) (foreign : List (Span w)) (state : σ)
    (live : List (Block w)) : Prop where
  outstanding : (lib.outstanding state).Perm (live.map Block.span ++ foreign)
  apart : live.Pairwise Block.Apart
  placed : ∀ block ∈ live, block.ptr ≠ 0 ∧ block.layout.align.toNat ∣ block.start

variable {lib : CLibrary w σ} {pointerAlign : Usize w} {foreign : List (Span w)} {state after : σ}
  {live : List (Block w)} {layout : Layout w} {memory later : Memory w} {slice : Slice w}

/-- The alignment that the library is asked for is one that it accepts, and a multiple of
the one of the layout. -/
theorem align_accepted (power : pointerAlign.toNat.isPowerOfTwo) (layout : Layout w) :
    let align := layout.align.nextMultipleOf pointerAlign
    align.toNat.isPowerOfTwo ∧ pointerAlign.toNat ∣ align.toNat ∧
      layout.align.toNat ∣ align.toNat := by
  intro align
  have largest : align.toNat = max layout.align.toNat pointerAlign.toNat :=
    Usize.toNat_nextMultipleOf layout.powerOfTwo power
  rw [largest]
  rcases le_total layout.align.toNat pointerAlign.toNat with smaller | larger
  · rw [Nat.max_eq_right smaller]
    exact ⟨power, dvd_rfl, dvd_of_isPowerOfTwo layout.powerOfTwo power smaller⟩
  · rw [Nat.max_eq_left larger]
    exact ⟨layout.powerOfTwo, dvd_of_isPowerOfTwo power layout.powerOfTwo larger, dvd_rfl⟩

/-- A block that the library grants joins the live ones. -/
theorem Owns.allocate (owns : Owns lib foreign state live) (honest : lib.Honest pointerAlign)
    (power : pointerAlign.toNat.isPowerOfTwo) (positive : 0 < layout.size.toNat)
    (granted : Mallocator.allocate lib pointerAlign state memory layout =
      (some slice, after, later)) :
    Owns lib foreign after (⟨slice.ptr, layout⟩ :: live) ∧ KeptOn live memory later := by
  obtain ⟨accepted, multiple, aligned⟩ := align_accepted power layout
  rcases answer : lib.posixMemalign state memory (layout.align.nextMultipleOf pointerAlign)
    layout.size with ⟨_ | ptr, reached, written⟩
  · simp only [Mallocator.allocate, answer] at granted
    cases granted
  · simp only [Mallocator.allocate, answer] at granted
    cases granted
    obtain ⟨placed, now, apart, kept⟩ := honest.granted accepted multiple positive answer
    have old : Span.KeptOn (live.map Block.span ++ foreign) memory later :=
      fun span member => kept span (owns.outstanding.mem_iff.mpr member)
    refine ⟨⟨now.trans (owns.outstanding.cons _), ?_, ?_⟩, keptOn_of_spans old⟩
    · refine List.pairwise_cons.mpr ⟨fun other member => ?_, owns.apart⟩
      have out : other.span ∈ lib.outstanding state := owns.outstanding.mem_iff.mpr
        (List.mem_append_left _ (List.mem_map_of_mem member))
      exact apart _ out
    · intro block member
      rcases List.mem_cons.mp member with rfl | earlier
      · exact ⟨placed.1, aligned.trans placed.2⟩
      · exact owns.placed block earlier

/-- A request that the library refuses changes nothing. -/
theorem Owns.refuse (owns : Owns lib foreign state live) (honest : lib.Honest pointerAlign)
    (power : pointerAlign.toNat.isPowerOfTwo) (positive : 0 < layout.size.toNat)
    (refused : Mallocator.allocate lib pointerAlign state memory layout = (none, after, later)) :
    Owns lib foreign after live ∧ KeptOn live memory later := by
  obtain ⟨accepted, multiple, _⟩ := align_accepted power layout
  rcases answer : lib.posixMemalign state memory (layout.align.nextMultipleOf pointerAlign)
    layout.size with ⟨_ | ptr, reached, written⟩
  · simp only [Mallocator.allocate, answer] at refused
    cases refused
    obtain ⟨same, kept⟩ := honest.refused accepted multiple positive answer
    have old : Span.KeptOn (live.map Block.span ++ foreign) memory later :=
      fun span member => kept span (owns.outstanding.mem_iff.mpr member)
    exact ⟨⟨same.trans owns.outstanding, owns.apart, owns.placed⟩, keptOn_of_spans old⟩
  · simp only [Mallocator.allocate, answer] at refused
    cases refused

/-- A block that is given back leaves the live ones. -/
theorem Owns.deallocate {block : Block w} {others : List (Block w)}
    (owns : Owns lib foreign state live) (honest : lib.Honest pointerAlign) (memory : Memory w)
    (rest : live.Perm (block :: others)) :
    Owns lib foreign (Mallocator.deallocate lib state memory block.ptr block.layout).1 others ∧
      KeptOn others memory
        (Mallocator.deallocate lib state memory block.ptr block.layout).2 := by
  have out : (lib.outstanding state).Perm
      ((block.ptr, block.layout.size) :: (others.map Block.span ++ foreign)) :=
    owns.outstanding.trans ((rest.map Block.span).append_right foreign)
  obtain ⟨left, kept⟩ := honest.freed memory out
  have symmetric : ∀ {first second : Block w}, first.Apart second → second.Apart first :=
    Block.Apart.symm
  have apart := (rest.pairwise_iff symmetric).mp owns.apart
  refine ⟨⟨left, (List.pairwise_cons.mp apart).2, fun other member => ?_⟩,
    keptOn_of_spans kept⟩
  exact owns.placed other (rest.mem_iff.mpr (List.mem_cons_of_mem _ member))

/-- What `Mallocator` keeps for its clients, if the library is honest. -/
def discipline (honest : lib.Honest pointerAlign) (power : pointerAlign.toNat.isPowerOfTwo)
    (foreign : List (Span w)) : (minimal lib pointerAlign).Discipline where
  valid := Owns lib foreign
  grants _ layout := 0 < layout.size.toNat
  releases _ _ _ := True
  apart owns := owns.apart
  allocate owns positive granted := owns.allocate honest power positive granted
  refuse owns positive refused := owns.refuse honest power positive refused
  deallocate memory owns rest _ := owns.deallocate honest memory rest

/-- The call asks for no empty block. -/
def AsksBytes : HeapCall w → Prop
  | .call inner => ∀ layout ∈ inner.requested, 0 < layout.size.toNat
  | .write _ _ _ => True

instance : ∀ call : HeapCall w, Decidable (AsksBytes call)
  | .call inner => Option.decidableForallMem inner.requested
  | .write _ _ _ => inferInstanceAs (Decidable True)

/-- **The live blocks are outstanding.** In every run whose calls respect the trait and ask
for no empty block. -/
theorem live_is_outstanding (lib : CLibrary w σ) (pointerAlign : Usize w)
    (honest : lib.Honest pointerAlign) (power : pointerAlign.toNat.isPowerOfTwo) (state : σ)
    (memory : Memory w) (calls : List (HeapCall w))
    (admitted : (minimal lib pointerAlign).machine.Along Minimal.Admits ⟨state, memory, []⟩ calls)
    (bytes : ∀ call ∈ calls, AsksBytes call) :
    let machine := (minimal lib pointerAlign).machine
    let final := machine.final ⟨state, memory, []⟩ calls
    Owns lib (lib.outstanding state) final.state final.live ∧
      machine.Along (minimal lib pointerAlign).Isolated ⟨state, memory, []⟩ calls := by
  have start : Owns lib (lib.outstanding state) state [] :=
    ⟨.rfl, .nil, List.forall_mem_nil _⟩
  apply (discipline honest power (lib.outstanding state)).isolates ⟨state, memory, []⟩ start calls
    admitted
  apply Machine.Along.of_forall_mem
  intro call member world
  have positive := bytes call member
  rcases call with (layout | block | ⟨block, newLayout⟩ | ⟨block, newLayout⟩) |
    ⟨block, index, byte⟩
  · exact positive layout rfl
  · exact trivial
  · exact ⟨positive newLayout rfl, fun _ _ => trivial⟩
  · exact ⟨positive newLayout rfl, fun _ _ => trivial⟩
  · exact trivial

/-- What a library has handed out: no pointer twice. -/
abbrev Handed := { spans : List (Span 64) // spans.Pairwise fun first second => first.1 ≠ second.1 }

/-- The span is below the pointer. -/
def IsBelow (ptr : Usize 64) (span : Span 64) : Prop :=
  ptr ≠ span.1 ∧ span.1.toNat + span.2.toNat ≤ ptr.toNat

instance (ptr : Usize 64) (span : Span 64) : Decidable (IsBelow ptr span) :=
  inferInstanceAs (Decidable (_ ∧ _))

/-- A library that puts every block above those that are out. -/
def ascending : CLibrary 64 Handed where
  posixMemalign state memory align size :=
    let ptr : Usize 64 := BitVec.ofNat 64 <|
      alignUp ((state.1.map fun span => span.1.toNat + span.2.toNat).foldl max 0x1000) align.toNat
    if room : (ptr ≠ 0 ∧ align.toNat ∣ ptr.toNat ∧ ptr.toNat + size.toNat ≤ 2 ^ 64) ∧
        state.1.all (IsBelow ptr) = true then
      (some ptr, ⟨(ptr, size) :: state.1, List.pairwise_cons.mpr
        ⟨fun span member => (of_decide_eq_true (List.all_eq_true.mp room.2 span member)).1,
          state.2⟩⟩, memory)
    else
      (none, state, memory)
  free state memory ptr := (⟨state.1.filter fun span => span.1 ≠ ptr, state.2.filter _⟩, memory)
  outstanding state := state.1

theorem ascending_honest : ascending.Honest 8 where
  granted {state memory align size ptr after later} _ _ _ answer := by
    simp only [ascending] at answer
    split at answer
    · rename_i room
      cases answer
      refine ⟨⟨room.1.1, room.1.2.1⟩, .rfl, fun span member address inside other => ?_, ?_⟩
      · have below := (of_decide_eq_true (List.all_eq_true.mp room.2 span member)).2
        have low := (bounds_of_inSpan room.1.2.2 inside).1
        have high := (bounds_of_inSpan (below.trans (BitVec.isLt _).le) other).2
        omega
      · exact fun span member address inside => rfl
    · cases answer
  refused {state memory align size after later} _ _ _ answer := by
    simp only [ascending] at answer
    split at answer
    · cases answer
    · cases answer
      exact ⟨.rfl, fun span member address inside => rfl⟩
  freed {state ptr size others} memory out := by
    refine ⟨?_, fun span member address inside => rfl⟩
    have symmetric : ∀ {first second : Span 64}, first.1 ≠ second.1 → second.1 ≠ first.1 :=
      Ne.symm
    have distinct := (List.pairwise_cons.mp ((out.pairwise_iff symmetric).mp state.2)).1
    have left := out.filter fun span => span.1 ≠ ptr
    have dropped : ((ptr, size) :: others).filter (fun span => decide (span.1 ≠ ptr)) = others := by
      rw [List.filter_cons_of_neg (by simp), List.filter_eq_self]
      exact fun span member => decide_eq_true (distinct span member).symm
    rwa [dropped] at left

/-- A word that is written, grows to two and shrinks to a byte. -/
def writtenCalls : List (HeapCall 64) :=
  [.call (.allocate .word), .write ⟨0x1000, .word⟩ 0 7,
    .call (.grow ⟨0x1000, .word⟩ .twoWords), .call (.shrink ⟨0x1008, .twoWords⟩ .byte)]

theorem writtenCalls_owned :
    let machine := (minimal ascending 8).machine
    let final := machine.final ⟨⟨[], .nil⟩, fun _ => 0, []⟩ writtenCalls
    Owns ascending [] final.state final.live ∧
      machine.Along (minimal ascending 8).Isolated ⟨⟨[], .nil⟩, fun _ => 0, []⟩ writtenCalls :=
  live_is_outstanding ascending 8 ascending_honest (by decide) ⟨[], .nil⟩ (fun _ => 0)
    writtenCalls (by decide) (by decide)

end Mallocator

end Stdx
