import FusionCore.Lib.ByteReader

/-!
# Records of fixed-width numbers

A record is written as its numbers one after the other.  Each number can be read on its own, at the
sum of the widths before it, wherever the record stands in a buffer.
-/

namespace ByteReader

open Outcome

/-- The numbers of a record, each with its width in bytes. -/
abbrev Record := List (ℕ × ℕ)

theorem flatMap_at {α β : Type*} {xs : List α} {i : ℕ} {x : α} (hi : xs[i]? = some x)
    (f : α → List β) :
    xs.flatMap f = (xs.take i).flatMap f ++ (f x ++ (xs.drop (i + 1)).flatMap f) := by
  obtain ⟨hlt, hget⟩ := List.getElem?_eq_some_iff.mp hi
  conv_lhs => rw [← List.take_append_drop i xs, List.drop_eq_getElem_cons hlt, hget]
  rw [List.flatMap_append, List.flatMap_cons]

theorem uintLe_at {w x : ℕ} {pre post : Bytes} (hx : x < 256 ^ w)
    (hfit : (pre ++ (leBytes w x ++ post)).length < 2 ^ 64) :
    uintLe w (pre ++ (leBytes w x ++ post)) pre.length = .ok x := by
  have hlen : (pre ++ (leBytes w x ++ post)).length = pre.length + w + post.length := by
    simp only [List.length_append, length_leBytes, Nat.add_assoc]
  rw [uintLe_eq, if_pos (by omega), List.drop_left, List.take_left' (length_leBytes w x),
    ofLeBytes_leBytes hx]

namespace Record

def encode (r : Record) : Bytes := r.flatMap fun f ↦ leBytes f.1 f.2

def width (r : Record) : ℕ := (r.map Prod.fst).sum

@[simp] theorem length_encode (r : Record) : r.encode.length = r.width := by
  induction r with
  | nil => rfl
  | cons f r ih =>
    rw [encode, List.flatMap_cons, List.length_append, length_leBytes]
    exact congrArg (f.1 + ·) ih

/-- Only the number that is read has to fit its width. -/
theorem read (pre : Bytes) {r : Record} {i w x off : ℕ} {post : Bytes} (hi : r[i]? = some (w, x))
    (hx : x < 256 ^ w) (hoff : pre.length + width (r.take i) = off)
    (hfit : (pre ++ (r.encode ++ post)).length < 2 ^ 64) :
    uintLe w (pre ++ (r.encode ++ post)) off = .ok x := by
  have hpre : (pre ++ encode (r.take i)).length = off := by
    rw [List.length_append, length_encode, hoff]
  have hsplit : pre ++ (r.encode ++ post) =
      (pre ++ encode (r.take i)) ++ (leBytes w x ++ (encode (r.drop (i + 1)) ++ post)) := by
    rw [encode, flatMap_at hi]
    simp only [encode, List.append_assoc]
  rw [hsplit] at hfit ⊢
  rw [← hpre]
  exact uintLe_at hx hfit

/-- Every number of the record fits its width. -/
def Fits (r : Record) : Prop := ∀ f ∈ r, f.2 < 256 ^ f.1

instance (r : Record) : Decidable r.Fits := inferInstanceAs (Decidable (∀ f ∈ r, _))

theorem Fits.read {r : Record} (hr : r.Fits) (pre : Bytes) {i w x off : ℕ} {post : Bytes}
    (hfit : (pre ++ (r.encode ++ post)).length < 2 ^ 64) (hi : r[i]? = some (w, x))
    (hoff : pre.length + width (r.take i) = off) :
    uintLe w (pre ++ (r.encode ++ post)) off = .ok x :=
  Record.read pre hi (hr _ (List.mem_of_getElem? hi)) hoff hfit

end Record

end ByteReader
