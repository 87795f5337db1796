/-!
# Actions one after the other

What may be done to a device is told by its actions, and what has been done to it by a list of them.
A course of actions is a fold over the list, so the lemmas about folds are those about courses: what
each action keeps, a course keeps (`List.foldlRecOn`).

* `Actions`: what a device is after an action.
* `performAll`: what it is after some actions; `performAll_append`: a course goes on.
-/

namespace GameBoy

/-- The actions `α` on devices `σ`. -/
class Actions (σ : Type) (α : outParam Type) where
  /-- The device after an action. -/
  perform : σ → α → σ

variable {σ α : Type} [Actions σ α]

/-- The device after some actions, one after the other. -/
def performAll (s : σ) (as : List α) : σ := as.foldl Actions.perform s

theorem performAll_append (s : σ) (as bs : List α) :
    performAll s (as ++ bs) = performAll (performAll s as) bs :=
  List.foldl_append

end GameBoy
