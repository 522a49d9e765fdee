import Mathlib.Algebra.Order.Ring.Int
import Mathlib.Algebra.Order.Ring.Nat
import Mathlib.Tactic.Common

/-!
# Fallible computations and checked machine arithmetic

A fallible computation is a value of `Except ε α`.  The lemmas here take a
successful run apart: a bind that succeeds had two parts that succeed, a guard
that succeeds holds.  Machine integers are natural numbers; an operation of width `w`
checks that its result is below `2 ^ w`, saturates there, or wraps.
-/

namespace Checked

universe u v

variable {ε : Type v} {α β : Type u}

/-! ## Guards and conversions -/

/-- Fail with `e` unless `p` holds. -/
def require (p : Prop) [Decidable p] (e : ε) : Except ε Unit :=
  if p then .ok () else .error e

/-- Replace a missing value by the error `e`. -/
def okOr (o : Option α) (e : ε) : Except ε α :=
  match o with
  | some a => .ok a
  | none => .error e

theorem bind_eq_ok_iff {x : Except ε α} {next : α → Except ε β} {b : β} :
    (x >>= next) = .ok b ↔ ∃ a, x = .ok a ∧ next a = .ok b := by
  rcases x with e | a
  · simp [Bind.bind, Except.bind]
  · simp [Bind.bind, Except.bind]

theorem bind_eq_error_iff {x : Except ε α} {next : α → Except ε β} {e : ε} :
    (x >>= next) = .error e ↔ x = .error e ∨ ∃ a, x = .ok a ∧ next a = .error e := by
  rcases x with e' | a
  · simp [Bind.bind, Except.bind]
  · simp [Bind.bind, Except.bind]

@[simp] theorem ok_bind (a : α) (f : α → Except ε β) : (Except.ok a >>= f) = f a := rfl

@[simp] theorem error_bind (e : ε) (f : α → Except ε β) :
    (Except.error e >>= f) = .error e := rfl

@[simp] theorem pure_eq_ok {a b : α} : (pure a : Except ε α) = .ok b ↔ a = b := by
  simp [pure, Except.pure]

@[simp] theorem require_eq_ok {p : Prop} [Decidable p] {e : ε} {u : Unit} :
    require p e = .ok u ↔ p := by
  by_cases hp : p <;> simp [require, hp]

@[simp] theorem require_eq_error {p : Prop} [Decidable p] {e e' : ε} :
    require p e = .error e' ↔ ¬p ∧ e = e' := by
  by_cases hp : p <;> simp [require, hp]

theorem require_of {p : Prop} [Decidable p] {e : ε} (hp : p) : require p e = .ok () := by
  simp [require, hp]

theorem require_of_not {p : Prop} [Decidable p] {e : ε} (hp : ¬p) : require p e = .error e := by
  simp [require, hp]

@[simp] theorem okOr_eq_ok {o : Option α} {e : ε} {a : α} :
    okOr o e = .ok a ↔ o = some a := by
  cases o <;> simp [okOr]

@[simp] theorem okOr_eq_error {o : Option α} {e e' : ε} :
    okOr o e = .error e' ↔ o = none ∧ e = e' := by
  cases o <;> simp [okOr]

@[simp] theorem pure_ne_error {a : α} {e : ε} : (pure a : Except ε α) ≠ .error e := by
  simp [pure, Except.pure]

@[simp] theorem okOr_some (a : α) (e : ε) : okOr (some a) e = .ok a := rfl

@[simp] theorem toOption_eq_some {x : Except ε α} {a : α} :
    x.toOption = some a ↔ x = .ok a := by
  cases x <;> simp [Except.toOption]

theorem ite_eq_ok {p : Prop} [Decidable p] {x y : Except ε α} {a : α} :
    (if p then x else y) = .ok a ↔ (p ∧ x = .ok a) ∨ (¬p ∧ y = .ok a) := by
  by_cases hp : p <;> simp [hp]

/-! What is said about the result of a call can be decided by making the call. -/

instance decidableExistsOk {x : Except ε α} {P : α → Prop} [DecidablePred P] :
    Decidable (∃ a, x = .ok a ∧ P a) :=
  match x with
  | .ok a => decidable_of_iff (P a) (by simp)
  | .error _ => .isFalse (by simp)

instance decidableForallOk {x : Except ε α} {P : α → Prop} [DecidablePred P] :
    Decidable (∀ a, x = .ok a → P a) :=
  match x with
  | .ok a => decidable_of_iff (P a) (by simp)
  | .error _ => .isTrue (by simp)

instance decidableEqError [DecidableEq ε] (x : Except ε α) (e : ε) :
    Decidable (x = .error e) :=
  match x with
  | .ok _ => .isFalse nofun
  | .error e' => decidable_of_iff (e' = e) (by simp)

/-- The invariant rule of a loop that may fail: what every successful pass keeps holds after
the loop. -/
theorem foldlM_invariant {γ : Type*} {P : β → Prop} {body : β → γ → Except ε β} {xs : List γ}
    (hbody : ∀ x ∈ xs, ∀ b b', P b → body b x = .ok b' → P b') {b b' : β} (hb : P b)
    (h : xs.foldlM body b = .ok b') : P b' := by
  induction xs generalizing b with
  | nil =>
    rw [List.foldlM_nil, pure_eq_ok] at h
    exact h ▸ hb
  | cons x xs ih =>
    rw [List.foldlM_cons] at h
    obtain ⟨c, hc, h⟩ := bind_eq_ok_iff.mp h
    exact ih (fun y hy ↦ hbody y (List.mem_cons_of_mem x hy))
      (hbody x List.mem_cons_self b c hb hc) h

/-- An error that no pass raises, as long as the invariant holds, is not raised by the loop. -/
theorem foldlM_ne_error {γ : Type*} {P : β → Prop} {body : β → γ → Except ε β} {xs : List γ} {e : ε}
    (hbody : ∀ x ∈ xs, ∀ b b', P b → body b x = .ok b' → P b')
    (hne : ∀ x ∈ xs, ∀ b, P b → body b x ≠ .error e) {b : β} (hb : P b) :
    xs.foldlM body b ≠ .error e := by
  induction xs generalizing b with
  | nil =>
    rw [List.foldlM_nil]
    exact pure_ne_error
  | cons x xs ih =>
    rw [List.foldlM_cons]
    intro h
    obtain h | ⟨c, hc, h⟩ := bind_eq_error_iff.mp h
    · exact hne x List.mem_cons_self b hb h
    · exact ih (fun y hy ↦ hbody y (List.mem_cons_of_mem x hy))
        (fun y hy ↦ hne y (List.mem_cons_of_mem x hy)) (hbody x List.mem_cons_self b c hb hc) h

section Cost

variable {γ M : Type*} [AddMonoid M] (pass : β → γ → Except ε β) (cost : β → β → M) (P : γ → Prop)
  [DecidablePred P]

/-- What the passes over the elements that `P` picks cost, as far as the loop comes. -/
def loopCost : β → List γ → M
  | _, [] => 0
  | b, x :: xs =>
    match pass b x with
    | .error _ => 0
    | .ok b' => loopCost b' xs + if P x then cost b b' else 0

variable {pass cost P}

/-- A v that falls by the cost of every pass over a picked element, and stays in every other,
falls by the cost of the loop. -/
theorem loopCost_spec {I : β → Prop} {v : β → M} {xs : List γ}
    (hpass : ∀ x ∈ xs, ∀ b b', I b → pass b x = .ok b' →
      I b' ∧ v b' + (if P x then cost b b' else 0) = v b)
    {b b' : β} (hb : I b) (h : xs.foldlM pass b = .ok b') :
    v b' + loopCost pass cost P b xs = v b := by
  induction xs generalizing b with
  | nil =>
    rw [List.foldlM_nil, pure_eq_ok] at h
    rw [loopCost, add_zero, h]
  | cons x xs ih =>
    rw [List.foldlM_cons] at h
    obtain ⟨c, hc, h⟩ := bind_eq_ok_iff.mp h
    obtain ⟨hI, hstep⟩ := hpass x List.mem_cons_self b c hb hc
    have hrest := ih (fun y hy ↦ hpass y (List.mem_cons_of_mem x hy)) hI h
    simp only [loopCost, hc]
    rw [← add_assoc, hrest, hstep]

end Cost

/-! ## Postconditions -/

/-- The value of `x` satisfies `Q` wherever `x` succeeds. -/
def Ensures (x : Except ε α) (Q : α → Prop) : Prop := ∀ a, x = .ok a → Q a

section Ensures

variable {P Q : α → Prop} {R : β → Prop} {x y : Except ε α} {next : α → Except ε β}

theorem Ensures.ok {a : α} (h : Q a) : Ensures (.ok a : Except ε α) Q := by
  rintro _ ⟨⟩
  exact h

theorem Ensures.bind (hx : Ensures x P) (hnext : ∀ a, P a → Ensures (next a) R) :
    Ensures (x >>= next) R := by
  intro b hb
  obtain ⟨a, ha, hb⟩ := bind_eq_ok_iff.mp hb
  exact hnext a (hx a ha) b hb

theorem Ensures.after (hnext : ∀ a, Ensures (next a) R) : Ensures (x >>= next) R := by
  refine Ensures.bind (P := fun _ ↦ True) ?_ ?_
  · intro _ _
    trivial
  · intro a _
    exact hnext a

theorem okOr_ensures {o : Option α} {e : ε} : Ensures (okOr o e) fun a ↦ o = some a :=
  fun _ ha ↦ okOr_eq_ok.mp ha

theorem require_ensures {p : Prop} [Decidable p] {e : ε} : Ensures (require p e) fun _ ↦ p :=
  fun _ h ↦ require_eq_ok.mp h

theorem Ensures.ite {c : Prop} [Decidable c] (hx : c → Ensures x Q) (hy : ¬c → Ensures y Q) :
    Ensures (if c then x else y) Q := by
  split
  next hc => exact hx hc
  next hc => exact hy hc

end Ensures

/-! ## Arithmetic of a fixed width -/

def checkedAdd (w a b : ℕ) : Option ℕ :=
  if a + b < 2 ^ w then some (a + b) else none

def checkedSub (a b : ℕ) : Option ℕ :=
  if b ≤ a then some (a - b) else none

def checkedMul (w a b : ℕ) : Option ℕ :=
  if a * b < 2 ^ w then some (a * b) else none

def saturatingAdd (w a b : ℕ) : ℕ := min (a + b) (2 ^ w - 1)

def saturatingMul (w a b : ℕ) : ℕ := min (a * b) (2 ^ w - 1)

/-- The value that a cast to width `w` keeps. -/
def truncate (w a : ℕ) : ℕ := a % 2 ^ w

/-- A conversion to width `w` that fails when the value does not fit. -/
def tryFit (w a : ℕ) : Option ℕ :=
  if a < 2 ^ w then some a else none

@[simp] theorem checkedAdd_eq_some {w a b c : ℕ} :
    checkedAdd w a b = some c ↔ a + b < 2 ^ w ∧ a + b = c := by
  simp [checkedAdd]

@[simp] theorem checkedSub_eq_some {a b c : ℕ} :
    checkedSub a b = some c ↔ b ≤ a ∧ a - b = c := by
  simp [checkedSub]

@[simp] theorem checkedMul_eq_some {w a b c : ℕ} :
    checkedMul w a b = some c ↔ a * b < 2 ^ w ∧ a * b = c := by
  simp [checkedMul]

@[simp] theorem tryFit_eq_some {w a c : ℕ} : tryFit w a = some c ↔ a < 2 ^ w ∧ a = c := by
  simp [tryFit]

theorem truncate_of_lt {w a : ℕ} (h : a < 2 ^ w) : truncate w a = a := Nat.mod_eq_of_lt h

theorem saturatingAdd_of_lt {w a b : ℕ} (h : a + b < 2 ^ w) : saturatingAdd w a b = a + b :=
  min_eq_left (Nat.le_sub_one_of_lt h)

theorem le_saturatingAdd {w a b : ℕ} (h : a < 2 ^ w) : a ≤ saturatingAdd w a b := by
  unfold saturatingAdd
  omega

end Checked
