import Mathlib.Logic.Relation

/-!
# Executable action systems

A system is a state space together with a partial action function.  The module
fixes reachability, runs and enabledness once, and proves the two rules every
client of it uses: an invariant is checked on single steps only, and a phase in
which every step lowers a natural measure can always be run to its end.
-/

namespace Transition

/-- A state space with one partial, executable transition for each action. -/
structure System (State : Type*) (Action : Type*) where
  step? : State → Action → Option State

namespace System

variable {State Action : Type*} (system : System State Action)

/-- One step of some action. -/
def Step (source target : State) : Prop :=
  ∃ action, system.step? source action = some target

/-- Reflexive-transitive closure of single steps. -/
def Reachable : State → State → Prop :=
  Relation.ReflTransGen system.Step

/-- Some action can be taken in the state. -/
def Enabled (source : State) : Prop :=
  ∃ target, system.Step source target

/-- Perform a fixed list of actions in order. -/
def run? (source : State) : List Action → Option State
  | [] => some source
  | action :: rest => (system.step? source action).bind fun next => run? next rest

/-- `Good` holds in every state of a run. -/
def Visits (Good : State → Prop) (source : State) : List Action → Prop
  | [] => Good source
  | action :: rest =>
      Good source ∧ ∀ next, system.step? source action = some next → Visits Good next rest

/-- `Allowed` holds of every step of a run. -/
def Takes (Allowed : State → Action → Prop) (source : State) : List Action → Prop
  | [] => True
  | action :: rest =>
      Allowed source action ∧
        ∀ next, system.step? source action = some next → Takes Allowed next rest

variable {system}

theorem Reachable.refl (state : State) : system.Reachable state state :=
  Relation.ReflTransGen.refl

theorem Reachable.trans {first middle last : State}
    (hfirst : system.Reachable first middle)
    (hlast : system.Reachable middle last) : system.Reachable first last :=
  Relation.ReflTransGen.trans hfirst hlast

theorem Reachable.tail {first middle last : State}
    (hreach : system.Reachable first middle)
    (hstep : system.Step middle last) : system.Reachable first last :=
  Relation.ReflTransGen.tail hreach hstep

theorem Reachable.single {source target : State}
    (hstep : system.Step source target) : system.Reachable source target :=
  Relation.ReflTransGen.single hstep

/-- A state computed by a fixed list of actions is reachable. -/
theorem reachable_of_run? {source target : State} {actions : List Action}
    (hrun : system.run? source actions = some target) :
    system.Reachable source target := by
  induction actions generalizing source with
  | nil =>
      obtain rfl : source = target := Option.some.inj hrun
      exact Reachable.refl _
  | cons action rest ih =>
      obtain ⟨next, hstep, hrest⟩ := Option.bind_eq_some_iff.mp hrun
      exact (Reachable.single ⟨action, hstep⟩).trans (ih hrest)

/-- A predicate preserved by single steps is preserved by runs. -/
theorem Reachable.invariant {Inv : State → Prop} {source target : State}
    (hreach : system.Reachable source target)
    (hstep : ∀ before after, Inv before → system.Step before after → Inv after)
    (hsource : Inv source) : Inv target := by
  induction hreach with
  | refl => exact hsource
  | tail _ edge ih => exact hstep _ _ ih edge

/-- A run stays good exactly if it takes allowed steps only, when those keep the
invariant and all others lead to a bad state. -/
theorem visits_iff_takes {Inv Good : State → Prop} {Allowed : State → Action → Prop}
    (hgood : ∀ state, Inv state → Good state)
    (hkeep : ∀ before action after, Inv before → system.step? before action = some after →
      Allowed before action → Inv after)
    (hbreak : ∀ before action after, Inv before → system.step? before action = some after →
      ¬ Allowed before action → ¬ Good after)
    {source target : State} {actions : List Action} (hsource : Inv source)
    (hrun : system.run? source actions = some target) :
    system.Visits Good source actions ↔ system.Takes Allowed source actions := by
  induction actions generalizing source with
  | nil => exact ⟨fun _ => trivial, fun _ => hgood source hsource⟩
  | cons action rest ih =>
      obtain ⟨next, hstep, hrest⟩ := Option.bind_eq_some_iff.mp hrun
      constructor
      · rintro ⟨-, hvisits⟩
        have hlater := hvisits next hstep
        have hnext : Good next := by
          cases rest with
          | nil => exact hlater
          | cons => exact hlater.1
        have hallowed : Allowed source action :=
          Classical.byContradiction fun hnot => hbreak source action next hsource hstep hnot hnext
        refine ⟨hallowed, fun other hother => ?_⟩
        obtain rfl : next = other := Option.some.inj (hstep.symm.trans hother)
        exact (ih (hkeep source action next hsource hstep hallowed) hrest).mp hlater
      · rintro ⟨hallowed, htakes⟩
        refine ⟨hgood source hsource, fun other hother => ?_⟩
        obtain rfl : next = other := Option.some.inj (hstep.symm.trans hother)
        exact (ih (hkeep source action next hsource hstep hallowed) hrest).mpr (htakes next hstep)

/-- A run of steps that are always allowed. -/
theorem takes_of_forall {Allowed : State → Action → Prop} {source : State} {actions : List Action}
    (hallowed : ∀ action ∈ actions, ∀ state, Allowed state action) :
    system.Takes Allowed source actions := by
  induction actions generalizing source with
  | nil => exact trivial
  | cons action rest ih =>
      exact ⟨hallowed action List.mem_cons_self source,
        fun _ _ => ih fun other hother => hallowed other (List.mem_cons_of_mem _ hother)⟩

/-- While `Phase` holds every step keeps the invariant and lowers the measure;
hence from every invariant state one can run until the phase is over or nothing
is enabled any more. -/
theorem exists_settled {Inv Phase : State → Prop} (measure : State → Nat)
    (hstep : ∀ before after, Inv before → Phase before →
      system.Step before after → Inv after ∧ measure after < measure before)
    {source : State} (hsource : Inv source) :
    ∃ target, system.Reachable source target ∧ Inv target ∧
      (Phase target → ¬ system.Enabled target) := by
  induction hbound : measure source using Nat.strongRecOn
      generalizing source with
  | _ bound ih =>
      by_cases hactive : Phase source ∧ system.Enabled source
      · obtain ⟨hphase, next, hnext⟩ := hactive
        obtain ⟨hinv, hlower⟩ := hstep source next hsource hphase hnext
        obtain ⟨target, hreach, htarget, hsettled⟩ :=
          ih (measure next) (hbound ▸ hlower) hinv rfl
        exact ⟨target, (Reachable.single hnext).trans hreach, htarget, hsettled⟩
      · exact ⟨source, Reachable.refl _, hsource,
          fun hphase henabled => hactive ⟨hphase, henabled⟩⟩

end System

end Transition
