import Mathlib.Tactic

/-!
# The progress HUD

The HUD is in its view from `show` until the animation of `dismiss` has
finished.  A `show` is ignored while it is there, also while it is on its way
down, and a `dismiss` on its way up is put off until it is up.
-/

inductive JGProgressHUD where
  | hidden
  | presenting (dismissAfterTransitionFinished : Bool)
  | shown
  | dismissing
deriving DecidableEq, Repr

namespace JGProgressHUD

def «show» : JGProgressHUD → JGProgressHUD
  | hidden => presenting false
  | hud => hud

def dismiss : JGProgressHUD → JGProgressHUD
  | hidden => hidden
  | presenting _ => presenting true
  | shown => dismissing
  | dismissing => dismissing

/-- `animationDidFinish:`, after which a dismissal that was put off starts. -/
def animationDidFinish : JGProgressHUD → JGProgressHUD
  | hidden => hidden
  | presenting dismissAfterTransitionFinished =>
      if dismissAfterTransitionFinished then dismiss shown else shown
  | shown => shown
  | dismissing => hidden

/-- It is up, or on its way up, and nothing has dismissed it. -/
def staysUp : JGProgressHUD → Bool
  | hidden => false
  | presenting dismissAfterTransitionFinished =>
      !dismissAfterTransitionFinished
  | shown => true
  | dismissing => false

@[simp] theorem staysUp_dismiss (hud : JGProgressHUD) :
    hud.dismiss.staysUp = false := by
  cases hud <;> rfl

@[simp] theorem staysUp_animationDidFinish (hud : JGProgressHUD) :
    hud.animationDidFinish.staysUp = hud.staysUp := by
  cases hud with
  | presenting dismissAfterTransitionFinished =>
      cases dismissAfterTransitionFinished <;> rfl
  | hidden => rfl
  | shown => rfl
  | dismissing => rfl

end JGProgressHUD
