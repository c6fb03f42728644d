import Mathlib.Data.List.Perm.Basic
import OutboxPattern.Lib.Transition

/-!
# A service behind a queue

A service begins to serve a request by an action of its own.  Here the requests cannot come in as
they like: they wait in a queue, and one of them enters whenever fewer than `limit` are being
served, or is refused.

Waiting is harmless as long as no request that is being served waits for one that is not.  The
service says so in one law (`Lawful.work_exists`): while requests are being served, one of them can
go on.  Then the queue is never stuck either, and it runs empty when nothing more arrives
(`served`).

The queue is in front of the service and changes nothing in it: what the service does is one of its
own runs (`exists_run_inner`), in which no more than `limit` requests are served at a time
(`serving_le_of_run`) and none of those that arrived is lost or entered twice (`account_of_run`).
-/

namespace Admission

universe u v w x

variable {σ : Type u} {α : Type v} {ρ : Type w} {τ : Type x}

/-- **A service**, as the queue sees it. -/
structure Service (σ : Type u) (α : Type v) (ρ : Type w) (τ : Type x) where
  step : σ → α → Option σ
  /-- The action that begins to serve a request, with what the request does not say. -/
  enter : τ → ρ → α
  /-- The action goes on with a request that has entered. -/
  isWork : α → Bool
  /-- And makes it fail, from outside.  An action that fails of itself, because the service refuses
  what is asked for, is none of these. -/
  isFailure : α → Bool
  /-- The number of requests that are being served. -/
  serving : σ → ℕ
  /-- The requests that have entered so far. -/
  entered : σ → List ρ
  /-- How many actions may be left, at most. -/
  pending : σ → ℕ
  /-- How many actions a request takes, at most. -/
  cost : ℕ

/-- What a service promises, in the states that `Inv` holds of. -/
structure Service.Lawful (S : Service σ α ρ τ) (Inv : σ → Prop) : Prop where
  inv_step : ∀ s a s', Inv s → S.step s a = some s' → Inv s'
  enter_enabled : ∀ s x r, Inv s → ∃ s', S.step s (S.enter x r) = some s'
  serving_enter : ∀ s x r s', Inv s → S.step s (S.enter x r) = some s' →
    S.serving s' ≤ S.serving s + 1
  entered_enter : ∀ s x r s', Inv s → S.step s (S.enter x r) = some s' →
    (S.entered s').Perm (r :: S.entered s)
  pending_enter : ∀ s x r s', Inv s → S.step s (S.enter x r) = some s' →
    S.pending s' ≤ S.pending s + S.cost
  serving_work : ∀ s a s', Inv s → S.isWork a = true → S.step s a = some s' →
    S.serving s' ≤ S.serving s
  entered_work : ∀ s a s', Inv s → S.isWork a = true → S.step s a = some s' →
    S.entered s' = S.entered s
  pending_work : ∀ s a s', Inv s → S.isWork a = true → S.step s a = some s' →
    S.pending s' < S.pending s
  work_exists : ∀ s, Inv s → 0 < S.serving s →
    ∃ a s', S.isWork a = true ∧ S.isFailure a = false ∧ S.step s a = some s'

/-! ### The queue -/

/-- A service and the requests that are not served: those that wait, and those that were refused. -/
structure Queued (σ : Type u) (ρ : Type w) where
  inner : σ
  waiting : List ρ
  refused : List ρ

/-- What can happen next. -/
inductive Event (α : Type v) (ρ : Type w) (τ : Type x)
  | arrive (r : ρ)
  /-- One of those that wait enters, not necessarily the first one. -/
  | accept (i : ℕ) (x : τ)
  | refuse (i : ℕ)
  | work (a : α)

namespace Event

/-- The request that arrives, if one does. -/
def arrival : Event α ρ τ → List ρ
  | arrive r => [r]
  | _ => []

/-- The queue gets shorter, or a request that has entered goes on. -/
def isService : Event α ρ τ → Bool
  | arrive _ => false
  | _ => true

/-- And it is neither refused by the queue nor made to fail from outside. -/
def isProper (S : Service σ α ρ τ) : Event α ρ τ → Bool
  | arrive _ => false
  | accept _ _ => true
  | refuse _ => false
  | work a => !S.isFailure a

theorem isService_of_isProper {S : Service σ α ρ τ} {e : Event α ρ τ}
    (h : e.isProper S = true) : e.isService = true := by
  cases e with
  | arrive r => cases h
  | accept i x => rfl
  | refuse i => rfl
  | work a => rfl

end Event

namespace Queued

variable (S : Service σ α ρ τ) (limit : ℕ)

/-- One step of the service and its queue. -/
def step (q : Queued σ ρ) : Event α ρ τ → Option (Queued σ ρ)
  | .arrive r => some { q with waiting := q.waiting ++ [r] }
  | .accept i x => q.waiting[i]?.bind fun r =>
      if S.serving q.inner < limit then
        (S.step q.inner (S.enter x r)).map fun inner =>
          { q with inner := inner, waiting := q.waiting.eraseIdx i }
      else none
  | .refuse i => q.waiting[i]?.map fun r =>
      { q with waiting := q.waiting.eraseIdx i, refused := q.refused ++ [r] }
  | .work a =>
      if S.isWork a then (S.step q.inner a).map fun inner => { q with inner := inner } else none

/-- Where each of the requests is that have arrived. -/
def account (q : Queued σ ρ) : List ρ := S.entered q.inner ++ q.waiting ++ q.refused

/-- How many events may come before all is done, unless a request arrives. -/
def load (q : Queued σ ρ) : ℕ := S.pending q.inner + (S.cost + 1) * q.waiting.length

/-- No request waits, and none is being served. -/
def Idle (q : Queued σ ρ) : Prop := q.waiting = [] ∧ S.serving q.inner = 0

/-- What an event does. -/
inductive Steps (q : Queued σ ρ) : Event α ρ τ → Queued σ ρ → Prop
  | arrive (r : ρ) : Steps q (.arrive r) { q with waiting := q.waiting ++ [r] }
  | accept {i : ℕ} {x : τ} {r : ρ} {inner : σ} (hr : q.waiting[i]? = some r)
      (free : S.serving q.inner < limit) (enters : S.step q.inner (S.enter x r) = some inner) :
      Steps q (.accept i x) { q with inner := inner, waiting := q.waiting.eraseIdx i }
  | refuse {i : ℕ} {r : ρ} (hr : q.waiting[i]? = some r) :
      Steps q (.refuse i)
        { q with waiting := q.waiting.eraseIdx i, refused := q.refused ++ [r] }
  | work {a : α} {inner : σ} (isWork : S.isWork a = true) (works : S.step q.inner a = some inner) :
      Steps q (.work a) { q with inner := inner }

variable {S limit} {q q' : Queued σ ρ} {e : Event α ρ τ}

theorem steps_of_step (h : step S limit q e = some q') : Steps S limit q e q' := by
  cases e with
  | arrive r =>
      obtain rfl := Option.some.inj h
      exact .arrive r
  | accept i x =>
      obtain ⟨r, hr, h⟩ := Option.bind_eq_some_iff.mp h
      split at h
      · next free =>
          obtain ⟨inner, henters, rfl⟩ := Option.map_eq_some_iff.mp h
          exact .accept hr free henters
      · cases h
  | refuse i =>
      obtain ⟨r, hr, rfl⟩ := Option.map_eq_some_iff.mp h
      exact .refuse hr
  | work a =>
      simp only [step] at h
      split at h
      · next hwork =>
          obtain ⟨inner, hworks, rfl⟩ := Option.map_eq_some_iff.mp h
          exact .work hwork hworks
      · cases h

/-- Taking a request out of the queue. -/
theorem perm_eraseIdx {xs : List ρ} {i : ℕ} {r : ρ} (h : xs[i]? = some r) :
    xs.Perm (r :: xs.eraseIdx i) := by
  obtain ⟨hlt, rfl⟩ := List.getElem?_eq_some_iff.mp h
  exact (List.getElem_cons_eraseIdx_perm hlt).symm

/-! ### One step -/

section Step

variable {Inv : σ → Prop} (hS : S.Lawful Inv)
include hS

theorem inv_step (hq : Inv q.inner) (h : step S limit q e = some q') : Inv q'.inner := by
  cases steps_of_step h with
  | arrive r => exact hq
  | accept hr free enters => exact hS.inv_step _ _ _ hq enters
  | refuse hr => exact hq
  | work isWork works => exact hS.inv_step _ _ _ hq works

theorem serving_le_step (hq : Inv q.inner) (hle : S.serving q.inner ≤ limit)
    (h : step S limit q e = some q') : S.serving q'.inner ≤ limit := by
  cases steps_of_step h with
  | arrive r => exact hle
  | accept hr free enters => exact Nat.le_trans (hS.serving_enter _ _ _ _ hq enters) free
  | refuse hr => exact hle
  | work isWork works => exact Nat.le_trans (hS.serving_work _ _ _ hq isWork works) hle

theorem account_step (hq : Inv q.inner) (h : step S limit q e = some q') :
    (q'.account S).Perm (e.arrival ++ q.account S) := by
  cases steps_of_step h with
  | arrive r =>
      show (S.entered q.inner ++ (q.waiting ++ [r]) ++ q.refused).Perm ([r] ++ q.account S)
      rw [← List.append_assoc, account]
      exact List.perm_append_comm.append_right q.refused
  | @accept i x r inner hr free enters =>
      show (S.entered inner ++ q.waiting.eraseIdx i ++ q.refused).Perm (q.account S)
      have hentered := hS.entered_enter _ _ _ _ hq enters
      have htaken := (perm_eraseIdx hr).append_left (S.entered q.inner)
      refine List.Perm.append_right q.refused ?_
      exact ((hentered.append_right _).trans List.perm_middle.symm).trans htaken.symm
  | @refuse i r hr =>
      show (S.entered q.inner ++ q.waiting.eraseIdx i ++ (q.refused ++ [r])).Perm (q.account S)
      have htaken := (perm_eraseIdx hr).append_right q.refused
      have hmoved : (q.waiting.eraseIdx i ++ (q.refused ++ [r])).Perm
          (r :: q.waiting.eraseIdx i ++ q.refused) := by
        rw [← List.append_assoc]
        exact List.perm_append_singleton r _
      rw [account, List.append_assoc, List.append_assoc]
      exact (hmoved.trans htaken.symm).append_left _
  | work isWork works =>
      show (S.entered _ ++ q.waiting ++ q.refused).Perm (q.account S)
      rw [hS.entered_work _ _ _ hq isWork works, account]

theorem load_step (hq : Inv q.inner) (hservice : e.isService = true)
    (h : step S limit q e = some q') : q'.load S < q.load S := by
  have htaken : ∀ {i : ℕ} {r : ρ}, q.waiting[i]? = some r →
      (q.waiting.eraseIdx i).length + 1 = q.waiting.length := by
    intro i r hr
    exact (perm_eraseIdx hr).length_eq.symm
  cases steps_of_step h with
  | arrive r => cases hservice
  | @accept i x r inner hr free enters =>
      have hpending := hS.pending_enter _ _ _ _ hq enters
      show S.pending inner + (S.cost + 1) * (q.waiting.eraseIdx i).length < q.load S
      rw [load, ← htaken hr, Nat.mul_succ]
      omega
  | @refuse i r hr =>
      show S.pending q.inner + (S.cost + 1) * (q.waiting.eraseIdx i).length < q.load S
      rw [load, ← htaken hr, Nat.mul_succ]
      omega
  | work isWork works =>
      exact Nat.add_lt_add_right (hS.pending_work _ _ _ hq isWork works) _

/-- Short of the end, a request can enter or go on. -/
theorem exists_step_of_not_idle [Inhabited τ] (hlimit : 0 < limit) (hq : Inv q.inner)
    (hidle : ¬ q.Idle S) :
    ∃ e q', Event.isProper S e = true ∧ step S limit q e = some q' := by
  by_cases hserving : S.serving q.inner = 0
  · have hwaiting : q.waiting ≠ [] := fun hnil => hidle ⟨hnil, hserving⟩
    have hpos : 0 < q.waiting.length := List.length_pos_iff.mpr hwaiting
    obtain ⟨inner, henters⟩ :=
      hS.enter_enabled q.inner default q.waiting[0] hq
    refine ⟨.accept 0 default, { q with inner := inner, waiting := q.waiting.eraseIdx 0 }, rfl, ?_⟩
    rw [step, List.getElem?_eq_getElem hpos, Option.bind_some, if_pos (hserving ▸ hlimit), henters]
    rfl
  · obtain ⟨a, inner, hwork, hproper, hworks⟩ :=
      hS.work_exists q.inner hq (Nat.pos_of_ne_zero hserving)
    refine ⟨.work a, { q with inner := inner }, by rw [Event.isProper, hproper]; rfl, ?_⟩
    rw [step, if_pos hwork, hworks]
    rfl

end Step

/-! ### Runs -/

variable (S limit)

/-- **Service**, of the requests in and behind a queue. -/
structure Served (q : Queued σ ρ) : Prop where
  /-- Unless a request arrives, no more than `load` events can come. -/
  bounded : ∀ events q', (∀ e ∈ events, e.isService = true) →
    Transition.run (step S limit) q events = some q' → events.length + q'.load S ≤ q.load S
  /-- When no request can enter or go on, there is none. -/
  stuck : (∀ e, Event.isProper S e = true → step S limit q e = none) → q.Idle S
  /-- And it can be brought there without any request being refused by the queue or made to fail
  from outside. -/
  drains : ∃ events q', (∀ e ∈ events, Event.isProper S e = true) ∧
    Transition.run (step S limit) q events = some q' ∧ q'.Idle S ∧ q'.refused = q.refused

variable {S limit} {Inv : σ → Prop} {events : List (Event α ρ τ)}

/-- Nothing that comes in properly is refused. -/
theorem refused_of_run (hall : ∀ e ∈ events, Event.isProper S e = true)
    (h : Transition.run (step S limit) q events = some q') : q'.refused = q.refused := by
  have hstep : ∀ (p : Queued σ ρ) e p', Event.isProper S e = true → p.refused = q.refused →
      step S limit p e = some p' → p'.refused = q.refused := by
    intro p e p' hproper hp h
    cases steps_of_step h with
    | refuse hr => cases hproper
    | _ => exact hp
  exact Transition.run_invariant_on hstep hall rfl h

/-- **The queue is not seen from within.** -/
theorem exists_run_inner (h : Transition.run (step S limit) q events = some q') :
    ∃ actions, Transition.run S.step q.inner actions = some q'.inner := by
  refine Transition.run_matching Queued.inner (fun p e p' h => ?_) h
  cases steps_of_step h with
  | arrive r => exact ⟨[], rfl⟩
  | accept hr free enters => exact ⟨[_], Transition.run_cons_of_step S.step enters []⟩
  | refuse hr => exact ⟨[], rfl⟩
  | work isWork works => exact ⟨[_], Transition.run_cons_of_step S.step works []⟩

section Run

variable (hS : S.Lawful Inv) (hq : Inv q.inner)
include hS hq

theorem serving_le_of_run (hle : S.serving q.inner ≤ limit)
    (h : Transition.run (step S limit) q events = some q') : S.serving q'.inner ≤ limit := by
  have hkeeps : ∀ (p : Queued σ ρ) e p', (Inv p.inner ∧ S.serving p.inner ≤ limit) →
      step S limit p e = some p' → Inv p'.inner ∧ S.serving p'.inner ≤ limit :=
    fun _ _ _ hp h => ⟨inv_step hS hp.1 h, serving_le_step hS hp.1 hp.2 h⟩
  exact (Transition.run_invariant hkeeps ⟨hq, hle⟩ h).2

/-- **Every request is in one place**: it has entered, it waits, or it was refused. -/
theorem account_of_run (h : Transition.run (step S limit) q events = some q') :
    (q'.account S).Perm (events.flatMap Event.arrival ++ q.account S) := by
  induction events generalizing q with
  | nil =>
      cases h
      exact .refl _
  | cons e events ih =>
      obtain ⟨p, hstep, hrest⟩ := Option.bind_eq_some_iff.mp h
      have haccount := account_step hS hq hstep
      refine (ih (inv_step hS hq hstep) hrest).trans ?_
      rw [List.flatMap_cons]
      refine (haccount.append_left _).trans ?_
      rw [← List.append_assoc]
      exact List.perm_append_comm.append_right _

/-- **No request waits for ever**, if fewer and fewer arrive. -/
theorem served [Inhabited τ] (hlimit : 0 < limit) : q.Served S limit := by
  have hkeeps : ∀ (p : Queued σ ρ) e p', Inv p.inner → step S limit p e = some p' →
      Inv p'.inner := fun _ _ _ hp h => inv_step hS hp h
  refine ⟨fun events q' hall hrun => ?_, fun hstuck => ?_, ?_⟩
  · exact Transition.run_length_le hkeeps (fun _ _ _ hp he h => load_step hS hp he h) hq hall hrun
  · by_contra hidle
    obtain ⟨e, q', hproper, hstep⟩ := exists_step_of_not_idle hS hlimit hq hidle
    rw [hstuck e hproper] at hstep
    cases hstep
  · obtain ⟨events, q', hall, hrun, hidle⟩ := Transition.exists_run_of_measure hkeeps
      (fun _ _ _ hp he h => load_step hS hp (Event.isService_of_isProper he) h)
      (fun _ hp hidle => exists_step_of_not_idle hS hlimit hp hidle) hq
    exact ⟨events, q', hall, hrun, hidle, refused_of_run hall hrun⟩

end Run

end Queued

end Admission
