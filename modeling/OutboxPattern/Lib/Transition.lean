import Mathlib.Algebra.GroupWithZero.Nat
import Mathlib.Data.List.Induction

/-!
# Runs of a partial transition function

A system is a partial step function `step : σ → α → Option σ`: an action either
takes the state to its successor or is not enabled there.  A schedule is a list
of actions, and `run` is the state it leads to.

Three rules carry every result about whole runs.

* `run_invariant`: a property that holds initially and is preserved by one step
  holds at the end of every run.
* `run_simulation`: a run is carried over to another system by a map that carries its
  steps over.
* `run_iff_allSteps`: a property of the final state that each step keeps *exactly
  when* a condition on that step holds is, at the end of a run, equivalent to the
  condition having held at every step.  This is what turns a one-step
  equivalence into the exact condition under which a whole run is good.

`run_refinement` is the simulation rule for a relation of states and systems with different actions,
and `run_matching` the one for steps that are runs of any length.
`run_filter_simulation` compares a run with what is left of its schedule when some of the actions
are dropped.

Two more are about runs that come to an end: `run_length_le` bounds them by a measure that
every step decreases, and `exists_run_of_measure` finds one that reaches its goal.

At the end are three facts about systems that are lists of processes, of which a step changes one.
-/

namespace Transition

universe u v

variable {σ : Type u} {α : Type v} (step : σ → α → Option σ)

/-- The state a schedule leads to, when every one of its actions is enabled. -/
def run : σ → List α → Option σ
  | s, [] => some s
  | s, a :: as => (step s a).bind fun s' => run s' as

@[simp] theorem run_nil (s : σ) : run step s [] = some s := rfl

@[simp] theorem run_cons (s : σ) (a : α) (as : List α) :
    run step s (a :: as) = (step s a).bind fun s' => run step s' as := rfl

/-- A run whose first action is enabled. -/
theorem run_cons_of_step {s s' : σ} {a : α} (h : step s a = some s') (as : List α) :
    run step s (a :: as) = run step s' as := by
  rw [run_cons, h, Option.bind_some]

theorem run_append (s : σ) (as bs : List α) :
    run step s (as ++ bs) = (run step s as).bind fun s' => run step s' bs := by
  induction as generalizing s with
  | nil => rfl
  | cons a as ih =>
      rw [List.cons_append, run_cons, run_cons, Option.bind_assoc]
      exact congrArg _ (funext ih)

theorem run_concat_eq_some {s s'' : σ} {as : List α} {a : α} :
    run step s (as ++ [a]) = some s'' ↔
      ∃ s', run step s as = some s' ∧ step s' a = some s'' := by
  simp [run_append, Option.bind_eq_some_iff]

/-- The condition `P` holds of every step a schedule takes: of the state the step
starts from, and of its action. -/
def AllSteps (P : σ → α → Prop) : σ → List α → Prop
  | _, [] => True
  | s, a :: as => P s a ∧ ∀ s', step s a = some s' → AllSteps P s' as

theorem allSteps_concat {P : σ → α → Prop} {s s' : σ} {as : List α} {a : α}
    (h : run step s as = some s') :
    AllSteps step P s (as ++ [a]) ↔ AllSteps step P s as ∧ P s' a := by
  induction as generalizing s with
  | nil =>
      cases h
      simp [AllSteps]
  | cons b as ih =>
      rw [run_cons, Option.bind_eq_some_iff] at h
      obtain ⟨t, hstep, hrest⟩ := h
      have hunique : ∀ t', step s b = some t' → t' = t := fun t' ht' =>
        Option.some.inj (ht'.symm.trans hstep)
      constructor
      · rintro ⟨hb, hall⟩
        obtain ⟨hall, ha⟩ := (ih hrest).mp (hall t hstep)
        exact ⟨⟨hb, fun t' ht' => hunique t' ht' ▸ hall⟩, ha⟩
      · rintro ⟨⟨hb, hall⟩, ha⟩
        exact ⟨hb, fun t' ht' => hunique t' ht' ▸ (ih hrest).mpr ⟨hall t hstep, ha⟩⟩

variable {step}

/-- **Invariant rule.**  What holds of the first state and is preserved by every
step holds wherever a run ends. -/
theorem run_invariant {Inv : σ → Prop}
    (hstep : ∀ s a s', Inv s → step s a = some s' → Inv s') :
    ∀ {as : List α} {s s' : σ}, Inv s → run step s as = some s' → Inv s'
  | [], _, _, hs, h => by cases h; exact hs
  | a :: as, s, s', hs, h => by
      rw [run_cons, Option.bind_eq_some_iff] at h
      obtain ⟨t, hst, hrest⟩ := h
      exact run_invariant hstep (hstep s a t hs hst) hrest

/-- The invariant rule for schedules of some of the actions. -/
theorem run_invariant_on {A : α → Prop} {Inv : σ → Prop}
    (hstep : ∀ s a s', A a → Inv s → step s a = some s' → Inv s') :
    ∀ {as : List α} {s s' : σ}, (∀ a ∈ as, A a) → Inv s → run step s as = some s' → Inv s'
  | [], _, _, _, hs, h => by cases h; exact hs
  | a :: as, s, s', hall, hs, h => by
      rw [run_cons, Option.bind_eq_some_iff] at h
      obtain ⟨t, hst, hrest⟩ := h
      exact run_invariant_on hstep (fun b hb => hall b (List.mem_cons_of_mem a hb))
        (hstep s a t (hall a List.mem_cons_self) hs hst) hrest

/-- **Simulation rule.**  If a map of states takes steps to steps, it takes runs to runs. -/
theorem run_simulation {τ : Type u} {step' : τ → α → Option τ} (f : σ → τ)
    (hstep : ∀ s a s', step s a = some s' → step' (f s) a = some (f s')) :
    ∀ {as : List α} {s s' : σ}, run step s as = some s' → run step' (f s) as = some (f s')
  | [], _, _, h => by cases h; rfl
  | a :: as, s, s', h => by
      rw [run_cons, Option.bind_eq_some_iff] at h
      obtain ⟨t, hst, hrest⟩ := h
      rw [run_cons_of_step step' (hstep s a t hst)]
      exact run_simulation f hstep hrest

/-- **Refinement rule.**  If related states stay related when the first system takes a step and the
second one the step `g` makes of it, then every run of the first has its counterpart. -/
theorem run_refinement {τ : Type u} {β : Type v} {step' : τ → β → Option τ} (g : α → β)
    {R : σ → τ → Prop}
    (hstep : ∀ s t a s', R s t → step s a = some s' → ∃ t', step' t (g a) = some t' ∧ R s' t') :
    ∀ {as : List α} {s s' : σ} {t : τ}, R s t → run step s as = some s' →
      ∃ t', run step' t (as.map g) = some t' ∧ R s' t'
  | [], _, _, t, hR, h => by cases h; exact ⟨t, rfl, hR⟩
  | a :: as, s, s', t, hR, h => by
      rw [run_cons, Option.bind_eq_some_iff] at h
      obtain ⟨s₁, hs, hrest⟩ := h
      obtain ⟨t₁, ht, hR₁⟩ := hstep s t a s₁ hR hs
      rw [List.map_cons, run_cons_of_step step' ht]
      exact run_refinement g hstep hR₁ hrest

/-- **Projection to a smaller system.**  If every step is, in the other system, a run of any length,
then so is every run. -/
theorem run_matching {τ : Type*} {β : Type*} {step' : τ → β → Option τ} (f : σ → τ)
    (hstep : ∀ s a s', step s a = some s' → ∃ bs, run step' (f s) bs = some (f s')) :
    ∀ {as : List α} {s s' : σ}, run step s as = some s' → ∃ bs, run step' (f s) bs = some (f s')
  | [], _, _, h => by cases h; exact ⟨[], rfl⟩
  | a :: as, s, s', h => by
      rw [run_cons, Option.bind_eq_some_iff] at h
      obtain ⟨t, hst, hrest⟩ := h
      obtain ⟨bs, hbs⟩ := hstep s a t hst
      obtain ⟨cs, hcs⟩ := run_matching f hstep hrest
      refine ⟨bs ++ cs, ?_⟩
      rw [run_append, hbs, Option.bind_some, hcs]

/-- What holds of the last state of a run holds of the first, if it holds before each step after
which it holds. -/
theorem run_backward {Inv Q : σ → Prop}
    (hinv : ∀ s a s', Inv s → step s a = some s' → Inv s')
    (hback : ∀ s a s', Inv s → step s a = some s' → Q s' → Q s) :
    ∀ {as : List α} {s s' : σ}, Inv s → run step s as = some s' → Q s' → Q s
  | [], _, _, _, h, hq => by cases h; exact hq
  | a :: as, s, s', hs, h, hq => by
      rw [run_cons, Option.bind_eq_some_iff] at h
      obtain ⟨t, hst, hrest⟩ := h
      exact hback s a t hs hst (run_backward hinv hback (hinv s a t hs hst) hrest hq)

/-- **Projection rule.**  Let a relation between states be kept by every step of an action that is
kept, taken on both sides, and by every step of one that is dropped, taken on the left.  Then the
kept actions of a schedule are a schedule on the right.  The two facts may be used about the states
that lead to a `Q`-state. -/
theorem run_filter_simulation {Inv Q : σ → Prop} {R : σ → σ → Prop} {keep : α → Bool}
    (hinv : ∀ s a s', Inv s → step s a = some s' → Inv s')
    (hback : ∀ s a s', Inv s → step s a = some s' → Q s' → Q s)
    (hkeep : ∀ s a s' t, Inv s → Q s' → R s t → keep a = true → step s a = some s' →
      ∃ t', step t a = some t' ∧ R s' t')
    (hdrop : ∀ s a s' t, Inv s → Q s' → R s t → keep a = false → step s a = some s' → R s' t) :
    ∀ {as : List α} {s s' t : σ}, Inv s → run step s as = some s' → Q s' → R s t →
      ∃ t', run step t (as.filter keep) = some t' ∧ R s' t'
  | [], s, s', t, _, h, _, hR => by
      cases h
      exact ⟨t, rfl, hR⟩
  | a :: as, s, s', t, hs, h, hq, hR => by
      rw [run_cons, Option.bind_eq_some_iff] at h
      obtain ⟨u, hst, hrest⟩ := h
      have hu := hinv s a u hs hst
      have hqu := run_backward hinv hback hu hrest hq
      cases hk : keep a with
      | true =>
          obtain ⟨u', hst', hR'⟩ := hkeep s a u t hs hqu hR hk hst
          obtain ⟨t', hrun, hR''⟩ := run_filter_simulation hinv hback hkeep hdrop hu hrest hq hR'
          refine ⟨t', ?_, hR''⟩
          rw [List.filter_cons_of_pos hk, run_cons_of_step step hst', hrun]
      | false =>
          have hR' := hdrop s a u t hs hqu hR hk hst
          obtain ⟨t', hrun, hR''⟩ := run_filter_simulation hinv hback hkeep hdrop hu hrest hq hR'
          refine ⟨t', ?_, hR''⟩
          rw [List.filter_cons_of_neg (by simp [hk]), hrun]

/-- **Exact-condition rule.**  Let a step out of an invariant state end in a
`Q`-state exactly when it starts in one and meets `P`.  Then a run from a
`Q`-state ends in one exactly when all of its steps meet `P`. -/
theorem run_iff_allSteps {Inv Q : σ → Prop} {P : σ → α → Prop} {s₀ : σ}
    (hinv₀ : Inv s₀) (hQ₀ : Q s₀)
    (hinv : ∀ s a s', Inv s → step s a = some s' → Inv s')
    (hiff : ∀ s a s', Inv s → step s a = some s' → (Q s' ↔ Q s ∧ P s a))
    {as : List α} {s : σ} (h : run step s₀ as = some s) :
    Q s ↔ AllSteps step P s₀ as := by
  induction as using List.reverseRecOn generalizing s with
  | nil =>
      cases h
      exact iff_of_true hQ₀ trivial
  | append_singleton as a ih =>
      obtain ⟨t, hrun, hlast⟩ := (run_concat_eq_some step).mp h
      rw [allSteps_concat step hrun, ← ih hrun]
      exact hiff t a s (run_invariant hinv hinv₀ hrun) hlast

/-! ### Runs that come to an end -/

section Measure

variable {Inv : σ → Prop} {A : α → Prop} {measure : σ → ℕ}

/-- **Termination rule.**  If each of the actions `A` decreases a measure, a schedule of them is
no longer than the measure of the state it starts in. -/
theorem run_length_le (hinv : ∀ s a s', Inv s → step s a = some s' → Inv s')
    (hmeasure : ∀ s a s', Inv s → A a → step s a = some s' → measure s' < measure s) :
    ∀ {as : List α} {s s' : σ}, Inv s → (∀ a ∈ as, A a) → run step s as = some s' →
      as.length + measure s' ≤ measure s
  | [], _, _, _, _, h => by
      cases h
      exact Nat.le_of_eq (Nat.zero_add _)
  | a :: as, s, s', hs, hall, h => by
      rw [run_cons, Option.bind_eq_some_iff] at h
      obtain ⟨t, hst, hrest⟩ := h
      have hlt := hmeasure s a t hs (hall a List.mem_cons_self) hst
      have hle := run_length_le hinv hmeasure (hinv s a t hs hst)
        (fun b hb => hall b (List.mem_cons_of_mem a hb)) hrest
      rw [List.length_cons]
      omega

/-- **Progress rule.**  If short of the goal one of the actions `A` is always enabled, and each of
them decreases a measure, then some schedule of them reaches the goal. -/
theorem exists_run_of_measure {Goal : σ → Prop}
    (hinv : ∀ s a s', Inv s → step s a = some s' → Inv s')
    (hmeasure : ∀ s a s', Inv s → A a → step s a = some s' → measure s' < measure s)
    (hprogress : ∀ s, Inv s → ¬ Goal s → ∃ a s', A a ∧ step s a = some s') {s : σ} (hs : Inv s) :
    ∃ as s', (∀ a ∈ as, A a) ∧ run step s as = some s' ∧ Goal s' := by
  induction hrank : measure s using Nat.strongRecOn generalizing s with
  | _ rank ih =>
      by_cases hgoal : Goal s
      · exact ⟨[], s, List.forall_mem_nil _, rfl, hgoal⟩
      · obtain ⟨a, t, ha, hst⟩ := hprogress s hs hgoal
        obtain ⟨as, s', hall, hrun, hgoal'⟩ :=
          ih (measure t) (hrank ▸ hmeasure s a t hs ha hst) (hinv s a t hs hst) rfl
        exact ⟨a :: as, s', List.forall_mem_cons.mpr ⟨ha, hall⟩,
          (run_cons_of_step step hst as).trans hrun, hgoal'⟩

end Measure

/-! ### A list of processes

Where a system is a list of processes, a step changes one entry. -/

section Processes

variable {π : Type*} {processes : List π} {i : ℕ} {p p' : π}

/-- What the step does not change of the process. -/
theorem map_set_of_eq {β : Type*} {f : π → β} (hp : processes[i]? = some p) (h : f p' = f p) :
    (processes.set i p').map f = processes.map f := by
  obtain ⟨hlt, rfl⟩ := List.getElem?_eq_some_iff.mp hp
  have hlength : i < (processes.map f).length := by rwa [List.length_map]
  have hself : (processes.map f)[i] = f p' := by rw [List.getElem_map, h]
  rw [List.map_set, ← hself, List.set_getElem_self]

/-- A sum decreases with one of its terms. -/
theorem sum_map_set_lt {f : π → ℕ} (hp : processes[i]? = some p) (h : f p' < f p) :
    ((processes.set i p').map f).sum < (processes.map f).sum := by
  obtain ⟨hlt, rfl⟩ := List.getElem?_eq_some_iff.mp hp
  obtain ⟨before, after, hsplit, -, hset⟩ : ∃ before after,
      processes = before ++ processes[i] :: after ∧ before.length = i ∧
        processes.set i p' = before ++ p' :: after := List.exists_of_set hlt
  have hold : (processes.map f).sum =
      (before.map f).sum + (f processes[i] + (after.map f).sum) := by
    rw [congrArg (List.map f) hsplit, List.map_append, List.sum_append, List.map_cons,
      List.sum_cons]
  have hnew : ((processes.set i p').map f).sum =
      (before.map f).sum + (f p' + (after.map f).sum) := by
    rw [hset, List.map_append, List.sum_append, List.map_cons, List.sum_cons]
  omega

/-- No more processes are such, unless the one that has changed has become so. -/
theorem countP_set_le {f : π → Bool} (hp : processes[i]? = some p)
    (h : f p' = true → f p = true) : (processes.set i p').countP f ≤ processes.countP f := by
  obtain ⟨hlt, rfl⟩ := List.getElem?_eq_some_iff.mp hp
  have hcounted : f processes[i] = true → 0 < processes.countP f := fun hold =>
    List.countP_pos_iff.mpr ⟨_, List.getElem_mem hlt, hold⟩
  rw [List.countP_set hlt]
  split
  · next hold =>
      have hpos := hcounted hold
      split <;> omega
  · next hold =>
      rw [if_neg fun hnew => hold (h hnew)]
      omega

end Processes

end Transition
