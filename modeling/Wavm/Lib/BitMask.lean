import Mathlib

set_option relaxedAutoImplicit false
set_option autoImplicit false

/-!
# Bit masks as sets

A `UInt64` read as the set of its bits, with the test `(mask & bits) == bits` a program uses
to ask whether `mask` holds every bit of `bits`. The relation is a preorder on the masks,
and a union is covered exactly when both of its parts are.

## Main definitions

* `BitMask.Covers mask bits` — every bit set in `bits` is set in `mask`.

## Main results

* `BitMask.covers_refl`, `BitMask.Covers.trans` — covering is a preorder.
* `BitMask.covers_or_left`, `BitMask.covers_or_right`, `BitMask.Covers.of_or`,
  `BitMask.Covers.or` — a union covers its parts, and is covered by what covers both.
-/

namespace BitMask

/-- Every bit set in `bits` is set in `mask`: the test `(mask & bits) == bits`. -/
def Covers (mask bits : UInt64) : Prop :=
  mask &&& bits = bits

instance (mask bits : UInt64) : Decidable (Covers mask bits) :=
  inferInstanceAs (Decidable (mask &&& bits = bits))

theorem covers_refl (a : UInt64) : Covers a a :=
  UInt64.and_self

/-- Covering is transitive: `a & c = a & (b & c) = (a & b) & c = b & c = c`. -/
theorem Covers.trans {a b c : UInt64} (hab : Covers a b) (hbc : Covers b c) : Covers a c := by
  unfold Covers at *
  calc a &&& c = a &&& (b &&& c) := by rw [hbc]
    _ = (a &&& b) &&& c := (UInt64.and_assoc a b c).symm
    _ = c := by rw [hab, hbc]

theorem covers_or_left (a b : UInt64) : Covers (a ||| b) a := by
  apply UInt64.toBitVec_inj.1
  rw [UInt64.toBitVec_and, UInt64.toBitVec_or]
  ext i
  simp only [BitVec.getElem_and, BitVec.getElem_or, Bool.and_eq_right_iff_imp, Bool.or_eq_true]
  exact Or.inl

theorem covers_or_right (a b : UInt64) : Covers (a ||| b) b := by
  apply UInt64.toBitVec_inj.1
  rw [UInt64.toBitVec_and, UInt64.toBitVec_or]
  ext i
  simp only [BitVec.getElem_and, BitVec.getElem_or, Bool.and_eq_right_iff_imp, Bool.or_eq_true]
  exact Or.inr

/-- A union covers what one of its parts covers. -/
theorem Covers.mono_or {a b : UInt64} (h : Covers a b) (c : UInt64) : Covers (a ||| c) b :=
  (covers_or_left a c).trans h

/-- What covers a union covers both of its parts. -/
theorem Covers.of_or {a b c : UInt64} (h : Covers a (b ||| c)) : Covers a b ∧ Covers a c :=
  ⟨h.trans (covers_or_left b c), h.trans (covers_or_right b c)⟩

/-- What covers both parts covers the union: `a & (b | c) = (a & b) | (a & c)`. -/
theorem Covers.or {a b c : UInt64} (hb : Covers a b) (hc : Covers a c) : Covers a (b ||| c) := by
  unfold Covers at *
  have hdistrib : a &&& (b ||| c) = (a &&& b) ||| (a &&& c) := by
    apply UInt64.toBitVec_inj.1
    simp only [UInt64.toBitVec_and, UInt64.toBitVec_or]
    exact BitVec.and_or_distrib_left
  rw [hdistrib, hb, hc]

end BitMask
