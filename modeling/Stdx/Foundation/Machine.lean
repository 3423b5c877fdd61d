import Mathlib.Algebra.BigOperators.Group.List.Basic
import Mathlib.Data.List.Forall2
import Mathlib.Tactic.Abel

/-! # Runs of deterministic machines

A machine answers every operation with an output and a next state. A run is the
list of its operations; a property of its steps holds *along* a run when it
holds at every step taken. Two rules carry properties from one step to a whole
run: an invariant kept by the steps that satisfy a condition holds after every
run whose steps all satisfy it (`Foundation.Machine.Along.invariant`), and a
relation that two machines keep in lockstep relates their outputs and final
states after every run (`Foundation.Machine.Along.refines`). What every step
balances, a run balances in total (`Foundation.Machine.Along.balance`).
-/

namespace Foundation

/-- Lists whose entries are related in order agree in what related entries share. -/
theorem map_eq_of_forall₂ {α β γ : Type*} {related : α → β → Prop} {left : α → γ}
    {right : β → γ} (same : ∀ first second, related first second → left first = right second)
    {firsts : List α} {seconds : List β} (entries : List.Forall₂ related firsts seconds) :
    firsts.map left = seconds.map right := by
  induction entries with
  | nil => rfl
  | cons head _ ih => rw [List.map_cons, List.map_cons, same _ _ head, ih]

/-- A deterministic machine: the output and the next state of each operation. -/
structure Machine (State Op Out : Type*) where
  step : State → Op → Out × State

namespace Machine

variable {State Op Out : Type*} (machine : Machine State Op Out)

/-- The state after one operation. -/
def next (state : State) (op : Op) : State :=
  (machine.step state op).2

/-- The output of one operation. -/
def out (state : State) (op : Op) : Out :=
  (machine.step state op).1

/-- The state after a run. -/
def final : State → List Op → State
  | state, [] => state
  | state, op :: ops => final (machine.next state op) ops

/-- The outputs of a run, in order. -/
def outputs : State → List Op → List Out
  | _, [] => []
  | state, op :: ops => machine.out state op :: outputs (machine.next state op) ops

/-- A property of steps holds at every step of a run. -/
def Along (holds : State → Op → Prop) : State → List Op → Prop
  | _, [] => True
  | state, op :: ops => holds state op ∧ Along holds (machine.next state op) ops

/-- Whether a decidable property holds along a run can be computed. -/
instance Along.decide (holds : State → Op → Prop) [∀ state op, Decidable (holds state op)] :
    ∀ state ops, Decidable (machine.Along holds state ops)
  | _, [] => isTrue trivial
  | state, op :: ops =>
      have := Along.decide holds (machine.next state op) ops
      inferInstanceAs (Decidable (holds state op ∧ machine.Along holds _ ops))

@[simp] theorem final_nil (state : State) : machine.final state [] = state := rfl

@[simp] theorem final_cons (state : State) (op : Op) (ops : List Op) :
    machine.final state (op :: ops) = machine.final (machine.next state op) ops := rfl

theorem final_append (state : State) (first second : List Op) :
    machine.final state (first ++ second) =
      machine.final (machine.final state first) second := by
  induction first generalizing state with
  | nil => rfl
  | cons op first ih => exact ih _

@[simp] theorem along_nil (holds : State → Op → Prop) (state : State) :
    machine.Along holds state [] := trivial

namespace Along

variable {machine} {holds other : State → Op → Prop}

/-- A property of all steps holds along every run. -/
theorem of_forall (always : ∀ state op, holds state op) (state : State) (ops : List Op) :
    machine.Along holds state ops := by
  induction ops generalizing state with
  | nil => exact trivial
  | cons op ops ih => exact ⟨always state op, ih _⟩

/-- A property of an operation in every state holds along the runs of such operations. -/
theorem of_forall_mem {ops : List Op} (always : ∀ op ∈ ops, ∀ state, holds state op)
    (state : State) : machine.Along holds state ops := by
  induction ops generalizing state with
  | nil => exact trivial
  | cons op ops ih =>
      exact ⟨always op List.mem_cons_self state,
        ih (fun later member => always later (List.mem_cons_of_mem _ member)) _⟩

/-- What follows from a property at each step holds along the runs with the property. -/
theorem mono (follows : ∀ state op, holds state op → other state op) {state : State}
    {ops : List Op} (run : machine.Along holds state ops) : machine.Along other state ops := by
  induction ops generalizing state with
  | nil => exact trivial
  | cons op ops ih => exact ⟨follows state op run.1, ih run.2⟩

/-- Two properties that hold along a run hold together along it. -/
theorem and {state : State} {ops : List Op} (left : machine.Along holds state ops)
    (right : machine.Along other state ops) :
    machine.Along (fun state op => holds state op ∧ other state op) state ops := by
  induction ops generalizing state with
  | nil => exact trivial
  | cons op ops ih => exact ⟨⟨left.1, right.1⟩, ih left.2 right.2⟩

/-- A property that holds along a run and along what follows it. -/
theorem append {state : State} {first second : List Op} (left : machine.Along holds state first)
    (right : machine.Along holds (machine.final state first) second) :
    machine.Along holds state (first ++ second) := by
  induction first generalizing state with
  | nil => exact right
  | cons op first ih => exact ⟨left.1, ih left.2 right⟩

/-- An invariant that every admitted step keeps, and under which every admitted
step has a further property, gives that property along the run. -/
theorem of_invariant (invariant : State → Prop) {state : State} {ops : List Op}
    (step : ∀ state op, invariant state → holds state op →
      other state op ∧ invariant (machine.next state op))
    (run : machine.Along holds state ops) (valid : invariant state) :
    machine.Along other state ops := by
  induction ops generalizing state with
  | nil => exact trivial
  | cons op ops ih =>
      obtain ⟨property, preserved⟩ := step state op valid run.1
      exact ⟨property, ih run.2 preserved⟩

/-- An invariant that every admitted step keeps holds after the run. -/
theorem invariant (invariant : State → Prop) {state : State} {ops : List Op}
    (step : ∀ state op, invariant state → holds state op → invariant (machine.next state op))
    (run : machine.Along holds state ops) (valid : invariant state) :
    invariant (machine.final state ops) := by
  induction ops generalizing state with
  | nil => exact valid
  | cons op ops ih => exact ih run.2 (step state op valid run.1)

/-- Two properties that agree at every admitted step from a state that satisfies
an invariant, which the steps with these properties keep, agree along a run. -/
theorem iff_of_invariant {left right : State → Op → Prop} (invariant : State → Prop)
    {state : State} {ops : List Op}
    (step : ∀ state op, invariant state → holds state op →
      (left state op ↔ right state op) ∧ (left state op → invariant (machine.next state op)))
    (run : machine.Along holds state ops) (valid : invariant state) :
    machine.Along left state ops ↔ machine.Along right state ops := by
  induction ops generalizing state with
  | nil => exact Iff.rfl
  | cons op ops ih =>
      obtain ⟨agree, kept⟩ := step state op valid run.1
      constructor
      · rintro ⟨now, later⟩
        exact ⟨agree.mp now, (ih run.2 (kept now)).mp later⟩
      · rintro ⟨now, later⟩
        exact ⟨agree.mpr now, (ih run.2 (kept (agree.mpr now))).mpr later⟩

/-- **Lockstep refinement.** A relation that every admitted step of one machine
and the corresponding step of another keep, with related outputs, relates all
outputs and the final states of a run and of the corresponding run. -/
theorem refines {Abstract AbstractOp AbstractOut : Type*}
    {model : Machine Abstract AbstractOp AbstractOut} (translate : Op → AbstractOp)
    (related : State → Abstract → Prop) (agree : Out → AbstractOut → Prop)
    (step : ∀ state abstract op, related state abstract → holds state op →
      agree (machine.out state op) (model.out abstract (translate op)) ∧
        related (machine.next state op) (model.next abstract (translate op)))
    {state : State} {abstract : Abstract} {ops : List Op}
    (run : machine.Along holds state ops) (start : related state abstract) :
    List.Forall₂ agree (machine.outputs state ops)
        (model.outputs abstract (ops.map translate)) ∧
      related (machine.final state ops) (model.final abstract (ops.map translate)) := by
  induction ops generalizing state abstract with
  | nil => exact ⟨.nil, start⟩
  | cons op ops ih =>
      obtain ⟨same, kept⟩ := step state abstract op start run.1
      obtain ⟨sameTail, keptTail⟩ := ih run.2 kept
      exact ⟨.cons same sameTail, keptTail⟩

/-- **Balance.** When what each step holds afterwards and gives away is what it
held and was given, the same is true of the run. -/
theorem balance {Amount : Type*} [AddCommMonoid Amount] (held : State → Amount)
    (given : Op → Amount) (gone : Out → Amount) {state : State} {ops : List Op}
    (run : machine.Along (fun state op =>
      held (machine.next state op) + gone (machine.out state op) = held state + given op)
      state ops) :
    held (machine.final state ops) + ((machine.outputs state ops).map gone).sum =
      held state + (ops.map given).sum := by
  induction ops generalizing state with
  | nil => rfl
  | cons op ops ih =>
      obtain ⟨now, later⟩ := run
      have rest := ih later
      simp only [outputs, final_cons, List.map_cons, List.sum_cons]
      rw [← add_assoc (held state), ← now, add_right_comm (held (machine.next state op)), ← rest]
      abel

end Along

/-- Some run whose steps all have a property leads from one state to another. -/
def Reaches (holds : State → Op → Prop) (before after : State) : Prop :=
  ∃ ops, machine.Along holds before ops ∧ machine.final before ops = after

namespace Reaches

variable {machine} {holds : State → Op → Prop} {first second third : State}

theorem refl (machine : Machine State Op Out) (holds : State → Op → Prop) (state : State) :
    machine.Reaches holds state state := ⟨[], trivial, rfl⟩

/-- One step. -/
theorem of_step {op : Op} (admitted : holds first op) :
    machine.Reaches holds first (machine.next first op) := ⟨[op], ⟨admitted, trivial⟩, rfl⟩

theorem trans (before : machine.Reaches holds first second)
    (after : machine.Reaches holds second third) : machine.Reaches holds first third := by
  obtain ⟨ops, admitted, rfl⟩ := before
  obtain ⟨more, continued, rfl⟩ := after
  exact ⟨ops ++ more, admitted.append continued, machine.final_append first ops more⟩

end Reaches

/-- **Simulation by runs.** A relation that every admitted step of one machine keeps, with some
run of the other one, relates the end of a run to what such runs lead to. -/
theorem Along.reaches {machine : Machine State Op Out} {holds : State → Op → Prop}
    {Abstract AbstractOp AbstractOut : Type*} {model : Machine Abstract AbstractOp AbstractOut}
    {allowed : Abstract → AbstractOp → Prop} (related : State → Abstract → Prop)
    (step : ∀ state abstract op, related state abstract → holds state op →
      ∃ later, model.Reaches allowed abstract later ∧ related (machine.next state op) later)
    {state : State} {abstract : Abstract} {ops : List Op} (run : machine.Along holds state ops)
    (start : related state abstract) :
    ∃ later, model.Reaches allowed abstract later ∧ related (machine.final state ops) later := by
  induction ops generalizing state abstract with
  | nil => exact ⟨abstract, .refl model allowed abstract, start⟩
  | cons op ops ih =>
      obtain ⟨middle, reached, kept⟩ := step state abstract op start run.1
      obtain ⟨later, continued, final⟩ := ih run.2 kept
      exact ⟨later, reached.trans continued, final⟩

end Machine

end Foundation
