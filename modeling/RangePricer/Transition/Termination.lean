import RangePricer.Transition.System

/-!
# Runs that have to end

A step that uses up part of a natural measure bounds every run.  The module
draws the three conclusions a client wants once: there is no infinite run, every
run can be continued until nothing is enabled, and where each step uses up
exactly one unit the length of a run is what it has used.
-/

namespace Transition.System

variable {State Action : Type*} {system : System State Action}

/-- The actions can be performed, and no action is left to perform after them. -/
structure Completes (system : System State Action) (source : State) (actions : List Action)
    (target : State) : Prop where
  run : system.run? source actions = some target
  stuck : ¬ system.Enabled target

/-- From `source` one can go on forever. -/
def RunsForever (system : System State Action) (source : State) : Prop :=
  ∃ states : Nat → State, states 0 = source ∧ ∀ k, system.Step (states k) (states (k + 1))

theorem run?_append (source : State) (first second : List Action) :
    system.run? source (first ++ second) =
      (system.run? source first).bind fun middle => system.run? middle second := by
  induction first generalizing source with
  | nil => rfl
  | cons action rest ih =>
      simp only [List.cons_append, run?, Option.bind_assoc]
      exact Option.bind_congr fun next _ => ih next

theorem run?_append_of_run? {source middle target : State} {first second : List Action}
    (hfirst : system.run? source first = some middle)
    (hsecond : system.run? middle second = some target) :
    system.run? source (first ++ second) = some target := by
  rw [run?_append, hfirst]
  exact hsecond

/-- What is reachable is reached by performing some list of actions. -/
theorem Reachable.exists_run? {source target : State} (hreach : system.Reachable source target) :
    ∃ actions, system.run? source actions = some target := by
  induction hreach with
  | refl => exact ⟨[], rfl⟩
  | tail _ edge ih =>
      obtain ⟨actions, hactions⟩ := ih
      obtain ⟨action, haction⟩ := edge
      refine ⟨actions ++ [action], run?_append_of_run? hactions ?_⟩
      rw [run?, haction]
      rfl

theorem Completes.reachable {source target : State} {actions : List Action}
    (hend : system.Completes source actions target) : system.Reachable source target :=
  reachable_of_run? hend.run

/-! ## Some of the actions only -/

/-- The system in which no other actions than the allowed ones are taken. -/
def only (system : System State Action) (allowed : Action → Bool) : System State Action :=
  ⟨fun state action => if allowed action then system.step? state action else none⟩

theorem only_step?_eq_some {allowed : Action → Bool} {source target : State} {action : Action} :
    (system.only allowed).step? source action = some target ↔
      allowed action = true ∧ system.step? source action = some target :=
  Option.ite_none_right_eq_some

theorem Reachable.of_only {allowed : Action → Bool} {source target : State}
    (hreach : (system.only allowed).Reachable source target) :
    system.Reachable source target := by
  induction hreach with
  | refl => exact Reachable.refl _
  | tail _ edge ih =>
      obtain ⟨action, haction⟩ := edge
      exact ih.tail ⟨action, (only_step?_eq_some.mp haction).2⟩

/-! ## Measures -/

section Measure

variable (Inv : State → Prop) (measure : State → Nat)

/-- Where each step uses up exactly one unit, a run is as long as what it has used. -/
theorem length_add_measure
    (hstep : ∀ before after, Inv before → system.Step before after →
      Inv after ∧ measure after + 1 = measure before)
    {source target : State} {actions : List Action} (hsource : Inv source)
    (hrun : system.run? source actions = some target) :
    actions.length + measure target = measure source := by
  induction actions generalizing source with
  | nil =>
      obtain rfl : source = target := Option.some.inj hrun
      exact Nat.zero_add _
  | cons action rest ih =>
      obtain ⟨next, haction, hrest⟩ := Option.bind_eq_some_iff.mp hrun
      obtain ⟨hnext, hunit⟩ := hstep source next hsource ⟨action, haction⟩
      calc (rest.length + 1) + measure target
          = (rest.length + measure target) + 1 := Nat.add_right_comm _ _ _
        _ = measure next + 1 := by rw [ih hnext hrest]
        _ = measure source := hunit

/-- A lowered measure leaves no infinite run. -/
theorem not_runsForever
    (hstep : ∀ before after, Inv before → system.Step before after →
      Inv after ∧ measure after < measure before)
    {source : State} (hsource : Inv source) : ¬ system.RunsForever source := by
  rintro ⟨states, rfl, hsteps⟩
  have hinv (k : Nat) : Inv (states k) := by
    induction k with
    | zero => exact hsource
    | succ k ih => exact (hstep _ _ ih (hsteps k)).1
  have hsum (k : Nat) : measure (states k) + k ≤ measure (states 0) := by
    induction k with
    | zero => exact Nat.le_refl _
    | succ k ih =>
        have hlower := (hstep _ _ (hinv k) (hsteps k)).2
        omega
  have hlast := hsum (measure (states 0) + 1)
  omega

/-- With a lowered measure every run can be continued to one that completes. -/
theorem exists_completes
    (hstep : ∀ before after, Inv before → system.Step before after →
      Inv after ∧ measure after < measure before)
    {source middle : State} {actions : List Action}
    (hrun : system.run? source actions = some middle) (hmiddle : Inv middle) :
    ∃ rest target, system.Completes source (actions ++ rest) target := by
  obtain ⟨target, hreach, -, hsettled⟩ :=
    @exists_settled _ _ system Inv (fun _ => True) measure
      (fun before after hbefore _ hedge => hstep before after hbefore hedge) _ hmiddle
  obtain ⟨rest, hrest⟩ := hreach.exists_run?
  exact ⟨rest, target, run?_append_of_run? hrun hrest, hsettled trivial⟩

/-- With a lowered measure some run completes. -/
theorem exists_complete_run
    (hstep : ∀ before after, Inv before → system.Step before after →
      Inv after ∧ measure after < measure before)
    {source : State} (hsource : Inv source) :
    ∃ actions target, system.Completes source actions target := by
  have hnone : system.run? source [] = some source := rfl
  obtain ⟨actions, target, hend⟩ := exists_completes Inv measure hstep hnone hsource
  exact ⟨_, target, hend⟩

end Measure

end Transition.System
