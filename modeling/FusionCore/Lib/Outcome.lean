import FusionCore.Lib.Checked

/-!
# Calls that may abort

A call returns a value, returns an error, or aborts.  An addition or a product that overflows and
a read outside a buffer abort; everything else that can go wrong is an error of the caller's
choice.  `Yields` is the postcondition of a call that does not abort: a value that satisfies `Q`,
or an error, and an error only in the case `P`.
-/

universe u v

inductive Outcome (ε : Type v) (α : Type u) where
  | ok (a : α)
  | err (e : ε)
  | abort
  deriving DecidableEq, Repr

namespace Outcome

variable {ε : Type v} {α β : Type u}

protected def bind (x : Outcome ε α) (next : α → Outcome ε β) : Outcome ε β :=
  match x with
  | .ok a => next a
  | .err e => .err e
  | .abort => .abort

instance instMonadOutcome : Monad (Outcome ε) where
  pure := .ok
  bind := Outcome.bind

@[simp] protected theorem ok_bind (a : α) (next : α → Outcome ε β) :
    (Outcome.ok a >>= next) = next a := rfl

@[simp] protected theorem err_bind (e : ε) (next : α → Outcome ε β) :
    (Outcome.err e >>= next) = .err e := rfl

@[simp] theorem pure_eq (a : α) : (pure a : Outcome ε α) = .ok a := rfl

/-- A missing value is the error `e`. -/
def ofOption (o : Option α) (e : ε) : Outcome ε α :=
  match o with
  | some a => .ok a
  | none => .err e

@[simp] theorem ofOption_some (a : α) (e : ε) : ofOption (some a) e = .ok a := rfl

@[simp] theorem ofOption_none (e : ε) : ofOption (none : Option α) e = .err e := rfl

def ofExcept (x : Except ε α) : Outcome ε α :=
  match x with
  | .ok a => .ok a
  | .error e => .err e

/-- A call that comes back without a value is the error `e`. -/
def okOr (x : Outcome Unit α) (e : ε) : Outcome ε α :=
  match x with
  | .ok a => .ok a
  | .err _ => .err e
  | .abort => .abort

@[simp] theorem okOr_ofOption (o : Option α) (e : ε) : okOr (ofOption o ()) e = ofOption o e := by
  cases o <;> rfl

/-! ## Arithmetic of a fixed width, and reads -/

def add (w a b : ℕ) : Outcome ε ℕ := if a + b < 2 ^ w then .ok (a + b) else .abort

def mul (w a b : ℕ) : Outcome ε ℕ := if a * b < 2 ^ w then .ok (a * b) else .abort

/-- The sum that is kept, and whether a bit was lost. -/
def overflowingAdd (w a b : ℕ) : ℕ × Bool := ((a + b) % 2 ^ w, decide (2 ^ w ≤ a + b))

def wrappingSub (w a b : ℕ) : ℕ := (a + 2 ^ w - b) % 2 ^ w

def index {γ : Type u} (xs : List γ) (i : ℕ) : Outcome ε γ :=
  match xs[i]? with
  | some x => .ok x
  | none => .abort

theorem add_bind {γ : Type} {w a b : ℕ} (h : a + b < 2 ^ w) (next : ℕ → Outcome ε γ) :
    (add w a b >>= next) = next (a + b) := by
  rw [add, if_pos h, Outcome.ok_bind]

theorem mul_bind {γ : Type} {w a b : ℕ} (h : a * b < 2 ^ w) (next : ℕ → Outcome ε γ) :
    (mul w a b >>= next) = next (a * b) := by
  rw [mul, if_pos h, Outcome.ok_bind]

theorem index_bind {γ : Type u} {xs : List γ} {i : ℕ} {x : γ} (h : xs[i]? = some x)
    (next : γ → Outcome ε β) : (index xs i >>= next) = next x := by
  rw [index, h, Outcome.ok_bind]

/-! ## Postconditions -/

def Yields (x : Outcome ε α) (P : Prop) (Q : α → Prop) : Prop :=
  (∃ a, x = .ok a ∧ Q a) ∨ P ∧ ∃ e, x = .err e

section Yields

variable {P : Prop} {Q : α → Prop} {R : β → Prop} {x y : Outcome ε α} {next : α → Outcome ε β}

theorem Yields.ok {a : α} (h : Q a) : Yields (.ok a : Outcome ε α) P Q := .inl ⟨a, rfl, h⟩

theorem Yields.err {e : ε} (h : P) : Yields (.err e : Outcome ε α) P Q := .inr ⟨h, e, rfl⟩

theorem Yields.bind (hx : Yields x P Q) (hnext : ∀ a, Q a → Yields (next a) P R) :
    Yields (x >>= next) P R := by
  obtain ⟨a, rfl, ha⟩ | ⟨hP, e, rfl⟩ := hx
  · exact hnext a ha
  · exact .err hP

theorem Yields.ite {c : Prop} [Decidable c] (hx : c → Yields x P Q) (hy : ¬c → Yields y P Q) :
    Yields (if c then x else y) P Q := by
  split
  next hc => exact hx hc
  next hc => exact hy hc

/-- The call does not abort. -/
abbrev Returns (x : Outcome ε α) : Prop := Yields x True fun _ ↦ True

theorem Yields.returns (hx : Yields x P Q) : Returns x := by
  obtain ⟨a, rfl, -⟩ | ⟨-, e, rfl⟩ := hx
  · exact .ok trivial
  · exact .err trivial

theorem Returns.ne_abort (hx : Returns x) : x ≠ .abort := by
  obtain ⟨a, rfl, -⟩ | ⟨-, e, rfl⟩ := hx
  · simp
  · simp

theorem ofOption_yields (o : Option α) (e : ε) : Yields (ofOption o e) True (o = some ·) := by
  cases o with
  | none => exact .err trivial
  | some a => exact .ok rfl

theorem Yields.okOr {x : Outcome Unit α} {e : ε} (h : Yields x P Q) : Yields (x.okOr e) P Q := by
  obtain ⟨a, rfl, ha⟩ | ⟨hP, -, rfl⟩ := h
  · exact .ok ha
  · exact .err hP

end Yields

end Outcome
