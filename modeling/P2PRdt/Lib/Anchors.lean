import Mathlib.Algebra.Group.Basic

/-!
# Elements of a group seen from an anchor

`seenFrom a p` is what has to be composed with the anchor `a` to get `p`. An
element that is handed from anchor to anchor, each seen from the one before, ends
up as seen from the last anchor alone.
-/

namespace P2PRdt.Lib

variable {G : Type} [Group G]

def seenFrom (a p : G) : G := a⁻¹ * p

@[simp] theorem mul_seenFrom (a p : G) : a * seenFrom a p = p := mul_inv_cancel_left a p

@[simp] theorem seenFrom_mul (a r : G) : seenFrom a (a * r) = r := inv_mul_cancel_left a r

/-- The old anchor cancels. -/
@[simp] theorem seenFrom_seenFrom (a b p : G) :
    seenFrom (seenFrom a b) (seenFrom a p) = seenFrom b p := by
  rw [seenFrom, seenFrom, seenFrom, mul_inv_rev, inv_inv, mul_assoc, mul_inv_cancel_left, seenFrom]

/-- `r` is handed from the anchor `a` along a list of anchors. -/
def handedOn (a r : G) : List G → G
  | [] => r
  | b :: anchors => handedOn b (seenFrom (seenFrom a b) r) anchors

theorem handedOn_seenFrom (a p : G) (anchors : List G) :
    handedOn a (seenFrom a p) anchors = seenFrom (anchors.getLastD a) p := by
  induction anchors generalizing a with
  | nil => rfl
  | cons b anchors ih => rw [handedOn, seenFrom_seenFrom, ih, List.getLastD_cons]

end P2PRdt.Lib
