import FusionCore.Lib.Table
import FusionCore.Lib.Checked
import Mathlib.Tactic.Linarith

/-!
# Token ledgers

One mint and the accounts that hold its tokens.  The supply is the sum of the
balances and fits in 64 bits; both facts are fields, so the three operations
`transfer`, `mintTo` and `burn` cannot produce a ledger that violates them.
-/

open Checked

/-- The accounts of one mint.  An account that is not in the table is empty. -/
structure TokenLedger (A : Type*) [DecidableEq A] where
  accounts : Table A ℕ
  supply : ℕ
  supply_eq : supply = accounts.total id
  supply_lt : supply < 2 ^ 64

inductive TokenError where
  | insufficientFunds
  | overflow
  deriving DecidableEq, Repr

namespace TokenLedger

variable {A : Type*} [DecidableEq A]

def balance (l : TokenLedger A) (a : A) : ℕ := (l.accounts.lookup a).getD 0

/-- The ledger of a fresh mint. -/
def empty : TokenLedger A := ⟨∅, 0, rfl, by decide⟩

theorem total_insert_balance (l : TokenLedger A) (a : A) (v : ℕ) :
    Table.total id (l.accounts.insert a v) + l.balance a = l.supply + v := by
  rw [l.supply_eq]
  cases h : l.accounts.lookup a with
  | none => simp [balance, h, Table.total_insert_of_none id v h]
  | some w => simpa [balance, h] using Table.total_insert_of_some id v h

theorem balance_le_supply (l : TokenLedger A) (a : A) : l.balance a ≤ l.supply := by
  have h := l.total_insert_balance a 0
  omega

theorem balance_lt (l : TokenLedger A) (a : A) : l.balance a < 2 ^ 64 :=
  (l.balance_le_supply a).trans_lt l.supply_lt

theorem getD_lookup_insert (t : Table A ℕ) (a b : A) (v : ℕ) :
    ((t.insert a v).lookup b).getD 0 = if b = a then v else (t.lookup b).getD 0 := by
  by_cases h : b = a
  · subst h
    simp
  · simp [h, AList.lookup_insert_ne h]

/-- Create `amount` tokens in the account `dst`. -/
def mintTo (l : TokenLedger A) (dst : A) (amount : ℕ) : Except TokenError (TokenLedger A) :=
  if h : l.supply + amount < 2 ^ 64 then
    .ok ⟨l.accounts.insert dst (l.balance dst + amount), l.supply + amount, by
      have := l.total_insert_balance dst (l.balance dst + amount)
      omega, h⟩
  else .error .overflow

/-- Destroy `amount` tokens of the account `src`. -/
def burn (l : TokenLedger A) (src : A) (amount : ℕ) : Except TokenError (TokenLedger A) :=
  if h : amount ≤ l.balance src then
    .ok ⟨l.accounts.insert src (l.balance src - amount), l.supply - amount, by
      have := l.total_insert_balance src (l.balance src - amount)
      have := l.balance_le_supply src
      omega, by have := l.supply_lt; omega⟩
  else .error .insufficientFunds

/-- Move `amount` tokens from `src` to `dst`: a burn there and a mint here. -/
def transfer (l : TokenLedger A) (src dst : A) (amount : ℕ) :
    Except TokenError (TokenLedger A) :=
  l.burn src amount >>= fun l' ↦ l'.mintTo dst amount

/-! ## What the operations do -/

section Specs

variable {l l' : TokenLedger A} {a src dst : A} {amount : ℕ}

theorem mintTo_supply (h : l.mintTo dst amount = .ok l') : l'.supply = l.supply + amount := by
  unfold mintTo at h
  split at h
  · cases h; rfl
  · cases h

theorem mintTo_balance (h : l.mintTo dst amount = .ok l') (a : A) :
    l'.balance a = l.balance a + if a = dst then amount else 0 := by
  unfold mintTo at h
  split at h
  · cases h
    simp only [balance, getD_lookup_insert]
    by_cases ha : a = dst
    · subst ha
      simp
    · simp [ha]
  · cases h

theorem burn_le (h : l.burn src amount = .ok l') : amount ≤ l.balance src := by
  unfold burn at h
  split at h
  · assumption
  · cases h

theorem burn_supply (h : l.burn src amount = .ok l') : l'.supply + amount = l.supply := by
  have hle := burn_le h
  have hsup := l.balance_le_supply src
  rw [burn, dif_pos hle] at h
  cases h
  exact Nat.sub_add_cancel (hle.trans hsup)

theorem burn_balance (h : l.burn src amount = .ok l') (a : A) :
    l'.balance a + (if a = src then amount else 0) = l.balance a := by
  have hle := burn_le h
  rw [burn, dif_pos hle] at h
  cases h
  simp only [balance, getD_lookup_insert] at hle ⊢
  by_cases ha : a = src
  · subst ha
    simp only [if_true]
    omega
  · simp [ha]

theorem transfer_supply (h : l.transfer src dst amount = .ok l') : l'.supply = l.supply := by
  obtain ⟨m, hburn, hmint⟩ := bind_eq_ok_iff.mp h
  rw [mintTo_supply hmint, burn_supply hburn]

theorem transfer_balance (h : l.transfer src dst amount = .ok l') (a : A) :
    l'.balance a + (if a = src then amount else 0) =
      l.balance a + if a = dst then amount else 0 := by
  obtain ⟨m, hburn, hmint⟩ := bind_eq_ok_iff.mp h
  rw [mintTo_balance hmint, ← burn_balance hburn a]
  omega

/-! ## When the operations succeed -/

theorem exists_burn (h : amount ≤ l.balance src) : ∃ l', l.burn src amount = .ok l' := by
  simp [burn, h]

theorem exists_mintTo (dst : A) (h : l.supply + amount < 2 ^ 64) :
    ∃ l', l.mintTo dst amount = .ok l' := by
  rw [mintTo, dif_pos h]
  exact ⟨_, rfl⟩

theorem exists_transfer (dst : A) (h : amount ≤ l.balance src) :
    ∃ l', l.transfer src dst amount = .ok l' := by
  obtain ⟨m, hburn⟩ := exists_burn h
  have hsupply : m.supply + amount < 2 ^ 64 := by
    rw [burn_supply hburn]
    exact l.supply_lt
  obtain ⟨l', hmint⟩ := exists_mintTo dst hsupply
  exact ⟨l', bind_eq_ok_iff.mpr ⟨m, hburn, hmint⟩⟩

end Specs

end TokenLedger
