import Mathlib

set_option relaxedAutoImplicit false
set_option autoImplicit false

/-!
# Paths of a labelled transition relation with silent steps

The runs of a nondeterministic automaton with ε-moves: a path from `s` to `t` reading the word
`w` takes a step labelled by each letter of `w` in turn, with any number of silent steps
between and around them.

## Main definitions

* `SilentPath step silent s w t` — a path from `s` to `t` reading `w`.

## Main results

* `SilentPath.append` — paths compose, reading the concatenation of their words.
* `SilentPath.mono` — a path of a relation is a path of every larger one.
-/

variable {σ α : Type*}

/-- A path from a state to a state reading a word: `step s a t` reads the letter `a`,
`silent s t` reads nothing. -/
inductive SilentPath (step : σ → α → σ → Prop) (silent : σ → σ → Prop) : σ → List α → σ → Prop
  | refl (s : σ) : SilentPath step silent s [] s
  | silent {s t u : σ} {w : List α} : silent s t → SilentPath step silent t w u →
      SilentPath step silent s w u
  | step {s t u : σ} {a : α} {w : List α} : step s a t → SilentPath step silent t w u →
      SilentPath step silent s (a :: w) u

namespace SilentPath

variable {step step' : σ → α → σ → Prop} {silent silent' : σ → σ → Prop}

/-- **Paths compose**, reading the concatenation of their words. -/
theorem append {s t u : σ} {v w : List α} (h₁ : SilentPath step silent s v t)
    (h₂ : SilentPath step silent t w u) : SilentPath step silent s (v ++ w) u := by
  induction h₁ with
  | refl => exact h₂
  | silent hst _ ih => exact .silent hst (ih h₂)
  | step hst _ ih => exact .step hst (ih h₂)

/-- **A path of a relation is a path of every larger one.** -/
theorem mono (hstep : ∀ s a t, step s a t → step' s a t)
    (hsilent : ∀ s t, silent s t → silent' s t) {s t : σ} {w : List α}
    (h : SilentPath step silent s w t) : SilentPath step' silent' s w t := by
  induction h with
  | refl => exact .refl _
  | silent hst _ ih => exact .silent (hsilent _ _ hst) ih
  | step hst _ ih => exact .step (hstep _ _ _ hst) ih

end SilentPath
