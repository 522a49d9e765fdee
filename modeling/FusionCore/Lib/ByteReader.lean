import FusionCore.Lib.Outcome
import Mathlib.Tactic.Ring

/-!
# Reading a buffer by offsets

A format is a sequence of sections, and a reader walks a buffer by offsets into it.  The buffer may
be cut off anywhere.  `SuffixAt payload off s` says that `s` is what is left of the payload at an
offset; from this, a read inside the buffer gives the section that the payload has there, and a
read that runs out of the buffer is an error.
-/

namespace ByteReader

open Checked Outcome

abbrev Bytes := List UInt8

/-! ## Little-endian numbers -/

def leBytes : (width x : ℕ) → Bytes
  | 0, _ => []
  | width + 1, x => UInt8.ofNat x :: leBytes width (x / 256)

def ofLeBytes : Bytes → ℕ
  | [] => 0
  | b :: bs => b.toNat + 256 * ofLeBytes bs

@[simp] theorem length_leBytes (width x : ℕ) : (leBytes width x).length = width := by
  induction width generalizing x with
  | zero => rfl
  | succ width ih => rw [leBytes, List.length_cons, ih]

theorem ofLeBytes_leBytes {width x : ℕ} (h : x < 256 ^ width) :
    ofLeBytes (leBytes width x) = x := by
  induction width generalizing x with
  | zero =>
    rw [pow_zero] at h
    rw [leBytes, ofLeBytes]
    omega
  | succ width ih =>
    have hdiv : x / 256 < 256 ^ width := by
      rw [Nat.div_lt_iff_lt_mul (by decide), ← pow_succ]
      exact h
    have hlow : (UInt8.ofNat x).toNat = x % 256 := UInt8.toNat_ofNat'
    rw [leBytes, ofLeBytes, ih hdiv, hlow, Nat.mod_add_div]

/-! ## Reads -/

def get (data : Bytes) (off : ℕ) : Outcome Unit UInt8 :=
  if off < data.length then index data off else .err ()

def readRange (data : Bytes) : (off n : ℕ) → Outcome Unit Bytes
  | _, 0 => pure []
  | off, n + 1 => do
      let b ← index data off
      let bs ← readRange data (off + 1) n
      pure (b :: bs)

def getRange (data : Bytes) (start stop : ℕ) : Outcome Unit Bytes :=
  if start ≤ stop ∧ stop ≤ data.length then readRange data start (stop - start) else .err ()

/-- Offsets have 64 bits. -/
def uintLe (width : ℕ) (data : Bytes) (off : ℕ) : Outcome Unit ℕ := do
  let stop ← ofOption (checkedAdd 64 off width) ()
  let bytes ← getRange data off stop
  if bytes.length = width then pure (ofLeBytes bytes) else .err ()

theorem get_eq (data : Bytes) (off : ℕ) : get data off = ofOption data[off]? () := by
  unfold get
  by_cases hlt : off < data.length
  · rw [if_pos hlt, index, List.getElem?_eq_getElem hlt, ofOption_some]
  · rw [if_neg hlt, List.getElem?_eq_none (not_lt.mp hlt), ofOption_none]

theorem readRange_eq {data : Bytes} {off n : ℕ} (h : off + n ≤ data.length) :
    readRange data off n = .ok ((data.drop off).take n) := by
  induction n generalizing off with
  | zero => rw [readRange, List.take_zero, pure_eq]
  | succ n ih =>
    have hlt : off < data.length := by omega
    have hrest := ih (show off + 1 + n ≤ data.length by omega)
    rw [readRange, index_bind (List.getElem?_eq_getElem hlt), hrest, Outcome.ok_bind, pure_eq,
      List.drop_eq_getElem_cons hlt, List.take_succ_cons]

/-- A number is read where its bytes are in the buffer; nothing else is read. -/
theorem uintLe_eq (width : ℕ) (data : Bytes) (off : ℕ) :
    uintLe width data off =
      if off + width < 2 ^ 64 ∧ off + width ≤ data.length then
        .ok (ofLeBytes ((data.drop off).take width))
      else .err () := by
  unfold uintLe checkedAdd getRange
  by_cases hfit : off + width < 2 ^ 64
  · rw [if_pos hfit, ofOption_some, Outcome.ok_bind]
    by_cases hin : off + width ≤ data.length
    · have hlen : ((data.drop off).take width).length = width := by
        rw [List.length_take, List.length_drop]
        omega
      have hread := readRange_eq hin
      rw [if_pos ⟨Nat.le_add_right _ _, hin⟩, if_pos ⟨hfit, hin⟩, Nat.add_sub_cancel_left, hread,
        Outcome.ok_bind, if_pos hlen, pure_eq]
    · rw [if_neg fun h ↦ hin h.2, if_neg fun h ↦ hin h.2, Outcome.err_bind]
  · rw [if_neg hfit, ofOption_none, Outcome.err_bind, if_neg fun h ↦ hfit h.1]

theorem get_returns (data : Bytes) (off : ℕ) : Returns (get data off) := by
  rw [get_eq]
  exact (ofOption_yields _ _).returns

theorem uintLe_returns (width : ℕ) (data : Bytes) (off : ℕ) : Returns (uintLe width data off) := by
  rw [uintLe_eq]
  exact .ite (fun _ ↦ .ok trivial) (fun _ ↦ .err trivial)

/-! ## Sections of a payload -/

def SuffixAt (payload : Bytes) (off : ℕ) (s : Bytes) : Prop :=
  ∃ pre, pre ++ s = payload ∧ pre.length = off

section SuffixAt

variable {payload s t : Bytes} {off : ℕ}

theorem SuffixAt.start (payload : Bytes) : SuffixAt payload 0 payload := ⟨[], rfl, rfl⟩

theorem SuffixAt.next (h : SuffixAt payload off (s ++ t)) :
    SuffixAt payload (off + s.length) t := by
  obtain ⟨pre, rfl, rfl⟩ := h
  exact ⟨pre ++ s, List.append_assoc pre s t, List.length_append⟩

theorem SuffixAt.length_eq (h : SuffixAt payload off s) : off + s.length = payload.length := by
  obtain ⟨pre, rfl, rfl⟩ := h
  exact List.length_append.symm

theorem SuffixAt.take_drop (h : SuffixAt payload off (s ++ t)) (padding : Bytes) {k : ℕ}
    (hk : off + s.length ≤ k) : (((payload ++ padding).take k).drop off).take s.length = s := by
  obtain ⟨pre, rfl, rfl⟩ := h
  rw [List.drop_take, List.take_take, min_eq_left (by omega), List.append_assoc, List.drop_left,
    List.append_assoc, List.take_left]

end SuffixAt

/-! ## A cut buffer -/

section Cut

variable {payload padding rest : Bytes} {off width x k a b : ℕ}

theorem le_length_cut_iff (h : off ≤ payload.length) :
    off ≤ ((payload ++ padding).take k).length ↔ off ≤ k := by
  rw [List.length_take, List.length_append]
  omega

/-- A read gives the number that the payload has there, or the buffer ends before the payload. -/
theorem uintLe_yields (hk : k < 2 ^ 64) (hx : x < 256 ^ width)
    (hs : SuffixAt payload off (leBytes width x ++ rest)) :
    Yields (uintLe width ((payload ++ padding).take k) off) (k < payload.length) (· = x) := by
  have hlen := hs.length_eq
  rw [List.length_append, length_leBytes] at hlen
  have hcut : off + width ≤ ((payload ++ padding).take k).length ↔ off + width ≤ k :=
    le_length_cut_iff (by omega)
  rw [uintLe_eq]
  apply Yields.ite
  · intro hin
    have hread := hs.take_drop padding (k := k)
    rw [length_leBytes] at hread
    rw [hread (hcut.mp hin.2), ofLeBytes_leBytes hx]
    exact .ok rfl
  · intro hout
    apply Yields.err
    omega

theorem get_yields {byte : UInt8} (hs : SuffixAt payload off (byte :: rest)) :
    Yields (get ((payload ++ padding).take k) off) (k < payload.length) (· = byte) := by
  have hlen := hs.length_eq
  rw [List.length_cons] at hlen
  rw [get_eq]
  by_cases hin : off < k
  · obtain ⟨pre, rfl, rfl⟩ := hs
    have hget : (((pre ++ byte :: rest) ++ padding).take k)[pre.length]? = some byte := by
      rw [List.getElem?_take_of_lt hin, List.append_assoc, List.getElem?_append_right le_rfl,
        Nat.sub_self, List.cons_append, List.getElem?_cons_zero]
    rw [hget]
    exact .ok rfl
  · have hout : ((payload ++ padding).take k).length ≤ off :=
      (List.length_take_le k _).trans (not_lt.mp hin)
    rw [List.getElem?_eq_none hout]
    exact .err (by omega)

/-- Offsets within the payload have 64 bits, or the buffer ends before the payload. -/
theorem checkedAdd_yields {ε : Type} {e : ε} (hk : k < 2 ^ 64) (h : a + b ≤ payload.length) :
    Yields (ofOption (checkedAdd 64 a b) e) (k < payload.length) (· = a + b) := by
  unfold checkedAdd
  split
  next hfit => exact .ok rfl
  next hbig => exact .err (by omega)

theorem checkedMul_yields {ε : Type} {e : ε} (hk : k < 2 ^ 64) (h : a * b ≤ payload.length) :
    Yields (ofOption (checkedMul 64 a b) e) (k < payload.length) (· = a * b) := by
  unfold checkedMul
  split
  next hfit => exact .ok rfl
  next hbig => exact .err (by omega)

end Cut

end ByteReader
