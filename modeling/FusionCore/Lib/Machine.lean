import FusionCore.Lib.Table

/-!
# Transition systems

A machine has initial states and labelled steps.  Runs may be restricted by a guard on the
label and the state before each step; an invariant is a property that the initial states have
and every guarded step keeps.
-/

structure Machine (S L : Type*) where
  init : S → Prop
  step : L → S → S → Prop

namespace Machine

variable {S L : Type*} {M : Machine S L} {G : L → S → Prop} {s s' : S}

/-- The states of the runs all of whose steps satisfy the guard `G`. -/
inductive Reachable (M : Machine S L) (G : L → S → Prop) : S → Prop where
  | init {s : S} (h : M.init s) : Reachable M G s
  | step {s s' : S} (l : L) (h : Reachable M G s) (hg : G l s) (hs : M.step l s s') :
      Reachable M G s'

/-- The states of all runs. -/
abbrev Reach (M : Machine S L) : S → Prop := M.Reachable fun _ _ ↦ True

theorem Reachable.invariant {P : S → Prop} (h : M.Reachable G s)
    (hinit : ∀ s, M.init s → P s)
    (hstep : ∀ l s s', P s → G l s → M.step l s s' → P s') : P s := by
  induction h with
  | init h => exact hinit _ h
  | step l _ hg hs ih => exact hstep l _ _ ih hg hs

theorem Reachable.mono {G' : L → S → Prop} (h : M.Reachable G s)
    (hG : ∀ l s, G l s → G' l s) : M.Reachable G' s := by
  induction h with
  | init h => exact .init h
  | step l _ hg hs ih => exact .step l ih (hG _ _ hg) hs

theorem Reachable.reach (h : M.Reachable G s) : M.Reach s := h.mono fun _ _ _ ↦ trivial

/-- What every step keeps, key by key, of a table that is empty at the start holds of all of its
entries. -/
theorem Reachable.all_entries {K V : Type*} [DecidableEq K] {tab : S → Table K V} {P : S → V → Prop}
    (h : M.Reachable G s) (hinit : ∀ s, M.init s → tab s = ∅)
    (hstep : ∀ l s s' k, M.Reachable G s → G l s → M.step l s s' →
      (∀ v ∈ (tab s).lookup k, P s v) → ∀ v ∈ (tab s').lookup k, P s' v) :
    (tab s).All (P s) := by
  induction h with
  | init h =>
    rw [hinit _ h]
    intro k v hv
    cases hv
  | step l h hg hs ih =>
    intro k v hv
    exact hstep l _ _ k h hg hs (ih k) v hv

/-! ## Later states -/

/-- One state leads to another by steps that satisfy the guard. -/
inductive Leads (M : Machine S L) (G : L → S → Prop) (s : S) : S → Prop where
  | refl : Leads M G s s
  | step {t t' : S} (l : L) (h : Leads M G s t) (hg : G l t) (hs : M.step l t t') :
      Leads M G s t'

theorem Reachable.leads (hs : M.Reachable G s) (h : M.Leads G s s') : M.Reachable G s' := by
  induction h with
  | refl => exact hs
  | step l _ hg hstep ih => exact .step l ih hg hstep

/-- What holds now and is kept by every step from a reachable state holds later. -/
theorem Leads.invariant {P : S → Prop} (h : M.Leads G s s') (hs : M.Reachable G s) (hP : P s)
    (hstep : ∀ l t t', M.Reachable G t → P t → G l t → M.step l t t' → P t') : P s' := by
  induction h with
  | refl => exact hP
  | step l h hg hs' ih => exact hstep l _ _ (hs.leads h) ih hg hs'

/-- The guard may bind the later steps only: the state before them is one of any run. -/
theorem Leads.keeps {P : S → Prop} (h : M.Leads G s s') (hs : M.Reach s) (hP : P s)
    (hstep : ∀ l t t', M.Reach t → P t → G l t → M.step l t t' → P t') : P s' := by
  have hboth : M.Reach s' ∧ P s' := by
    induction h with
    | refl => exact ⟨hs, hP⟩
    | step l _ hg hs' ih => exact ⟨.step l ih.1 trivial hs', hstep l _ _ ih.1 ih.2 hg hs'⟩
  exact hboth.2

/-! ## Machines that can be run -/

/-- Run a list of labels as long as the guard allows them and the step function has a successor. -/
def execute (G : L → S → Prop) [∀ l s, Decidable (G l s)] (next : L → S → Option S) :
    S → List L → Option S
  | s, [] => some s
  | s, l :: ls => if G l s then (next l s).bind fun s' ↦ execute G next s' ls else none

theorem Leads.execute [∀ l s, Decidable (G l s)] {next : L → S → Option S} {ls : List L} {t t' : S}
    (hnext : ∀ l s s', next l s = some s' → M.step l s s') (hs : M.Leads G s t)
    (h : Machine.execute G next t ls = some t') : M.Leads G s t' := by
  induction ls generalizing t with
  | nil =>
    rw [Machine.execute, Option.some.injEq] at h
    exact h ▸ hs
  | cons l ls ih =>
    rw [Machine.execute] at h
    split at h
    next hg =>
      obtain ⟨u, hu, h⟩ := Option.bind_eq_some_iff.mp h
      exact ih (hs.step l hg (hnext l t u hu)) h
    next => cases h

theorem Reachable.execute [∀ l s, Decidable (G l s)] {next : L → S → Option S} {ls : List L}
    (hnext : ∀ l s s', next l s = some s' → M.step l s s') (hs : M.Reachable G s)
    (h : Machine.execute G next s ls = some s') : M.Reachable G s' :=
  hs.leads (Leads.refl.execute hnext h)

/-! ## Histories -/

section Ghost

variable {Γ : Type*} {g₀ : Γ} {upd : L → S → S → Γ → Γ}

/-- The machine with a history beside its state.  No step reads the history. -/
def withGhost (M : Machine S L) (g₀ : Γ) (upd : L → S → S → Γ → Γ) : Machine (S × Γ) L where
  init x := M.init x.1 ∧ x.2 = g₀
  step l x x' := M.step l x.1 x'.1 ∧ x'.2 = upd l x.1 x'.1 x.2

/-- Forgetting the history gives a run of the machine itself. -/
theorem Reachable.forget {x : S × Γ}
    (h : (M.withGhost g₀ upd).Reachable (fun l x ↦ G l x.1) x) : M.Reachable G x.1 := by
  induction h with
  | init h => exact .init h.1
  | step l _ hg hs ih => exact .step l ih hg hs.1

/-- The step function that keeps the history as well. -/
def ghostNext (next : L → S → Option S) (upd : L → S → S → Γ → Γ) (l : L) (x : S × Γ) :
    Option (S × Γ) :=
  (next l x.1).map fun s' ↦ (s', upd l x.1 s' x.2)

theorem withGhost_step {next : L → S → Option S}
    (hnext : ∀ l s s', next l s = some s' → M.step l s s') (l : L) (x x' : S × Γ)
    (h : ghostNext next upd l x = some x') : (M.withGhost g₀ upd).step l x x' := by
  obtain ⟨s', hs', rfl⟩ := Option.map_eq_some_iff.mp h
  exact ⟨hnext l x.1 s' hs', rfl⟩

end Ghost

end Machine
