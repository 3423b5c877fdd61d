import Mathlib.Order.Lattice

/-! # Descents over landings

A descent goes down a list of landings. A landing takes every address below its
limit to its own start and lets the others pass, so that an address above the
limit stays for the landings further down. When each landing starts at or above
the place where the one below it stops, a descent ends at the base of the list
exactly when the address it begins with and the start of every landing but the
lowest are below the limit of some landing further down, and the lowest landing
starts at the base (`Foundation.Landing.descend_eq_iff`).
-/

namespace Foundation

variable {α : Type*} [LinearOrder α]

/-- A region with a limit above it. -/
structure Landing (α : Type*) [LinearOrder α] where
  start : α
  stop : α
  limit : α
  start_le : start ≤ stop
  stop_lt : stop < limit

namespace Landing

/-- The address where the top landing of a list stops. -/
def top (base : α) : List (Landing α) → α
  | [] => base
  | landing :: _ => landing.stop

/-- Each landing, the top one first, starts at or above the stop of the next one. -/
def Rising (base : α) : List (Landing α) → Prop
  | [] => True
  | landing :: rest => top base rest ≤ landing.start ∧ Rising base rest

/-- Where a descent ends. -/
def descend : List (Landing α) → α → α
  | [], address => address
  | landing :: rest, address =>
      descend rest (if address < landing.limit then landing.start else address)

/-- The address and all starts below it are under the limit of a landing further
down, and the last of them is the base. -/
def Covered (base : α) : α → List (Landing α) → Prop
  | address, [] => address = base
  | address, landing :: rest =>
      (∃ other ∈ landing :: rest, address < other.limit) ∧ Covered base landing.start rest

instance Covered.decide (base : α) : ∀ address landings, Decidable (Covered base address landings)
  | _, [] => inferInstanceAs (Decidable (_ = _))
  | address, landing :: rest =>
      have := Covered.decide base landing.start rest
      inferInstanceAs (Decidable ((∃ other ∈ landing :: rest, address < other.limit) ∧
        Covered base landing.start rest))

variable {base address : α} {landings : List (Landing α)} {landing : Landing α}

theorem Rising.base_le_top (rising : Rising base landings) : base ≤ top base landings := by
  induction landings with
  | nil => exact le_rfl
  | cons landing rest ih =>
      exact (ih rising.2).trans (rising.1.trans landing.start_le)

/-- A landing may be put under the others. -/
theorem Rising.concat (rising : Rising landing.stop landings) (above : base ≤ landing.start) :
    Rising base (landings ++ [landing]) := by
  induction landings with
  | nil => exact ⟨above, trivial⟩
  | cons upper rest ih =>
      refine ⟨?_, ih rising.2⟩
      have below := rising.1
      cases rest with
      | nil => exact below
      | cons => exact below

theorem top_concat (base : α) (landings : List (Landing α)) (landing : Landing α) :
    top base (landings ++ [landing]) = top landing.stop landings := by
  cases landings with
  | nil => rfl
  | cons => rfl

/-- A list that covers an address covers lower ones. -/
theorem Covered.lower {lower : α} (covered : Covered base address (landing :: landings))
    (le : lower ≤ address) : Covered base lower (landing :: landings) := by
  obtain ⟨⟨other, member, below⟩, rest⟩ := covered
  exact ⟨⟨other, member, lt_of_le_of_lt le below⟩, rest⟩

/-- **Descents to the base.** -/
theorem descend_eq_iff (rising : Rising base landings) (above : top base landings ≤ address) :
    descend landings address = base ↔ Covered base address landings := by
  induction landings generalizing address with
  | nil => exact Iff.rfl
  | cons landing rest ih =>
      obtain ⟨under, risingRest⟩ := rising
      have start : landing.start ≤ address := landing.start_le.trans above
      unfold descend
      by_cases taken : address < landing.limit
      · rw [if_pos taken, ih risingRest under]
        exact ⟨fun covered => ⟨⟨landing, List.mem_cons_self, taken⟩, covered⟩, And.right⟩
      · rw [if_neg taken, ih risingRest (under.trans start)]
        cases rest with
        | nil =>
            have higher : base < address :=
              lt_of_le_of_lt (under.trans landing.start_le)
                (lt_of_lt_of_le landing.stop_lt (not_lt.mp taken))
            refine ⟨fun same => absurd same higher.ne', ?_⟩
            rintro ⟨⟨other, member, below⟩, _⟩
            cases List.mem_singleton.mp member
            exact absurd below taken
        | cons lower rest =>
            constructor
            · intro covered
              obtain ⟨other, member, below⟩ := covered.1
              exact ⟨⟨other, List.mem_cons_of_mem _ member, below⟩, covered.lower start⟩
            · rintro ⟨⟨other, member, below⟩, covered⟩
              rcases List.mem_cons.mp member with rfl | further
              · exact absurd below taken
              · exact ⟨⟨other, further, below⟩, covered.2⟩

end Landing

end Foundation
