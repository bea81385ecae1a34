/-!
# Computations that may fail

A computation either fails or returns a result.  `Succeeds` states that it
returns one, and what the result satisfies, `Ensures` only what the result
satisfies if there is one; the rules compose such statements along sequences and
loops.
-/

namespace Transition

universe u v

variable {Fault : Type u} {α β : Type v}

/-- The computation returns a result, and the result satisfies `Post`. -/
def Succeeds (run : Except Fault α) (Post : α → Prop) : Prop :=
  ∃ result, run = .ok result ∧ Post result

namespace Succeeds

variable {run : Except Fault α} {Post Weaker : α → Prop}

theorem ok {result : α} (hpost : Post result) : Succeeds (.ok result : Except Fault α) Post :=
  ⟨result, rfl, hpost⟩

theorem mono (hrun : Succeeds run Post) (hweaker : ∀ result, Post result → Weaker result) :
    Succeeds run Weaker := by
  obtain ⟨result, hresult, hpost⟩ := hrun
  exact ⟨result, hresult, hweaker result hpost⟩

/-- The result is known. -/
theorem eq_ok {result : α} (hrun : Succeeds run (· = result)) : run = .ok result := by
  obtain ⟨_, hresult, rfl⟩ := hrun
  exact hresult

/-- One computation after another. -/
theorem bind {next : α → Except Fault β} {After : β → Prop} (hrun : Succeeds run Post)
    (hnext : ∀ result, Post result → Succeeds (next result) After) :
    Succeeds (run >>= next) After := by
  obtain ⟨result, rfl, hpost⟩ := hrun
  exact hnext result hpost

/-- A computation with a known result before another. -/
theorem bind_ok {result : α} {next : α → Except Fault β} {After : β → Prop}
    (hrun : run = .ok result) (hnext : Succeeds (next result) After) :
    Succeeds (run >>= next) After := by
  rw [hrun]
  exact hnext

/-- A loop over a list keeps what relates its state to a fold over the same list. -/
theorem foldlM {ι : Type v} {next : α → ι → Except Fault α} {plain : β → ι → β}
    {Rel : α → β → Prop} {items : List ι}
    (hstep : ∀ item ∈ items, ∀ state value, Rel state value →
      Succeeds (next state item) fun after => Rel after (plain value item))
    {state : α} {value : β} (hstart : Rel state value) :
    Succeeds (items.foldlM next state) fun after => Rel after (items.foldl plain value) := by
  induction items generalizing state value with
  | nil => exact ok hstart
  | cons item rest ih =>
      rw [List.foldlM_cons]
      exact (hstep item List.mem_cons_self state value hstart).bind fun after hafter =>
        ih (fun other hother => hstep other (List.mem_cons_of_mem _ hother)) hafter

end Succeeds

/-- Whatever result the computation returns satisfies `Post`. -/
def Ensures (run : Except Fault α) (Post : α → Prop) : Prop :=
  ∀ result, run = .ok result → Post result

namespace Ensures

variable {run : Except Fault α} {Post : α → Prop}

theorem ok {result : α} (hpost : Post result) : Ensures (.ok result : Except Fault α) Post := by
  rintro _ ⟨⟩
  exact hpost

theorem error {fault : Fault} : Ensures (.error fault : Except Fault α) Post := by
  rintro _ ⟨⟩

/-- One computation after another. -/
theorem bind {next : α → Except Fault β} {After : β → Prop} (hrun : Ensures run Post)
    (hnext : ∀ result, Post result → Ensures (next result) After) :
    Ensures (run >>= next) After := by
  cases run with
  | error fault => exact error
  | ok result => exact hnext result (hrun result rfl)

/-- A computation whose result does not matter before another. -/
theorem bind_any {next : α → Except Fault β} {After : β → Prop}
    (hnext : ∀ result, Ensures (next result) After) : Ensures (run >>= next) After :=
  bind (fun _ _ => trivial) fun result (_ : True) => hnext result

end Ensures

end Transition
