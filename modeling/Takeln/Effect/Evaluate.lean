import Takeln.Effect.Interleave

/-!
# Worlds that always answer

In a world that answers every operation a program has one result and leaves one world (`Prog.evaluate`).
-/

namespace Effect

/-- A world that answers every operation. -/
abbrev Answering (F : Signature) (W : Type) := W → (o : F.Op) → F.Ans o × W

namespace Prog

variable {F : Signature} {E α W : Type} {a : Answering F W} {w : W}

/-- What a program comes to, and the world it leaves. -/
def evaluate (a : Answering F W) : Prog F E α → W → Except E α × W
  | ret x, w => (.ok x, w)
  | fail e, w => (.error e, w)
  | perform o k, w => evaluate a (k (a w o).1) (a w o).2

@[simp] theorem evaluate_ret (x : α) : evaluate a (ret x : Prog F E α) w = (.ok x, w) := rfl

@[simp] theorem evaluate_fail (e : E) : evaluate a (fail e : Prog F E α) w = (.error e, w) := rfl

@[simp] theorem evaluate_perform (o : F.Op) (k : F.Ans o → Prog F E α) :
    evaluate a (perform o k) w = evaluate a (k (a w o).1) (a w o).2 := rfl

@[simp] theorem evaluate_ofExcept (x : Except E α) : evaluate a (ofExcept x : Prog F E α) w = (x, w) := by
  cases x <;> rfl

end Prog

end Effect
