import Mathlib.Logic.Relation
import PropertyGraph.Sink

/-!
# What a sink receives

The writing of a text to a sink goes from moment to moment: at each the sink has received some bytes and others are
left, and an offer that is answered by taking some of them leads to the next one.  Each offer but the last takes
something, so no two offers of a writing find the same number of bytes received, and a sink may answer them as it
likes.  The key facts: what is received and what is left make up the text at every moment (`Sink.Reaches.append_eq`),
the writing ends where the sink has everything or fails (`Sink.exists_end_writeAll`), and so a sink gets a beginning
of the text, and the whole of it if the writing succeeds (`Registry.toSink_receives`).
-/

namespace PropertyGraph

/-- A moment of a writing: the bytes that were received and those that are left to offer. -/
structure Moment where
  received : List UInt8
  left : List UInt8

namespace Sink

/-- A sink takes some of what is left. -/
inductive Takes (sink : Sink) : Moment → Moment → Prop
  | take {received left : List UInt8} {n : Nat} (offered : left ≠ []) (some : 0 < n)
      (reply : sink.write received.length left.length = .taken n) :
      Takes sink ⟨received, left⟩ ⟨received ++ left.take n, left.drop n⟩

/-- The moments that a writing comes to. -/
def Reaches (sink : Sink) : Moment → Moment → Prop := Relation.ReflTransGen sink.Takes

/-- A sink breaks a writing off for a reason: something is left, and the sink fails or takes nothing of it. -/
inductive BreaksOff (sink : Sink) : Moment → String → Prop
  | failed {m : Moment} {reason : String} (offered : m.left ≠ [])
      (reply : sink.write m.received.length m.left.length = .failed reason) : BreaksOff sink m reason
  | nothing {m : Moment} (offered : m.left ≠ []) (reply : sink.write m.received.length m.left.length = .taken 0) :
      BreaksOff sink m nothingTaken

variable {sink : Sink} {m m' last : Moment}

/-! ### From moment to moment -/

theorem Takes.append_eq (h : sink.Takes m m') : m'.received ++ m'.left = m.received ++ m.left := by
  cases h
  simp

theorem Takes.unique {m'' : Moment} (h : sink.Takes m m') (h' : sink.Takes m m'') : m' = m'' := by
  obtain ⟨-, -, reply⟩ := h
  obtain ⟨-, -, reply'⟩ := h'
  rw [reply, Reply.taken.injEq] at reply'
  rw [reply']

/-- Nothing is repeated and nothing is skipped. -/
theorem Reaches.append_eq (h : sink.Reaches m m') : m'.received ++ m'.left = m.received ++ m.left := by
  induction h with
  | refl => rfl
  | tail _ hstep ih => exact hstep.append_eq.trans ih

theorem not_takes_of_left_eq_nil (h : m.left = []) : ¬sink.Takes m m' := by
  rintro ⟨offered, -, -⟩
  exact offered h

theorem BreaksOff.left_ne_nil {reason : String} (h : sink.BreaksOff m reason) : m.left ≠ [] := by
  cases h <;> assumption

theorem BreaksOff.not_takes {reason : String} (h : sink.BreaksOff m reason) : ¬sink.Takes m m' := by
  rintro ⟨-, some, reply⟩
  cases h with
  | failed _ reply' =>
    rw [reply] at reply'
    cases reply'
  | nothing _ reply' =>
    rw [reply, Reply.taken.injEq] at reply'
    omega

/-- Every moment of a writing lies on the way to its last one. -/
theorem Reaches.to_last (h : sink.Reaches m m') (hlast : sink.Reaches m last) (hend : ∀ next, ¬sink.Takes last next) :
    sink.Reaches m' last := by
  have hunique : Relator.RightUnique sink.Takes := fun _ _ _ h h' => h.unique h'
  rcases Relation.ReflTransGen.total_of_right_unique hunique h hlast with hto | hfrom
  · exact hto
  · rcases Relation.ReflTransGen.cases_head hfrom with rfl | ⟨next, hnext, -⟩
    · exact .refl
    · exact absurd hnext (hend next)

/-! ### The end of a writing -/

/-- Offers are made until everything is taken or the sink breaks off; there is room for all of them. -/
theorem exists_end_offer (sink : Sink) (received : List UInt8) {left : List UInt8} {room : Nat}
    (hroom : left.length < room) :
    ∃ last, sink.Reaches ⟨received, left⟩ last ∧
      (last.left = [] ∧ sink.offer room received left = (.ok (), last.received) ∨
        ∃ reason, sink.BreaksOff last reason ∧ sink.offer room received left = (.error reason, last.received)) := by
  induction room generalizing received left with
  | zero => omega
  | succ room ih =>
    by_cases hleft : left = []
    · subst hleft
      exact ⟨⟨received, []⟩, .refl, .inl ⟨rfl, rfl⟩⟩
    cases hreply : sink.write received.length left.length with
    | failed reason =>
      refine ⟨⟨received, left⟩, .refl, .inr ⟨reason, .failed hleft hreply, ?_⟩⟩
      simp [offer, hreply]
    | taken n =>
      cases n with
      | zero =>
        refine ⟨⟨received, left⟩, .refl, .inr ⟨nothingTaken, .nothing hleft hreply, ?_⟩⟩
        simp [offer, hreply]
      | succ n =>
        -- less is left after the offer, so there is room for the others
        have hpos := List.length_pos_iff.2 hleft
        have hless : (left.drop (n + 1)).length < room := by
          rw [List.length_drop]
          omega
        obtain ⟨last, hlast, hend⟩ := ih (received ++ left.take (n + 1)) hless
        refine ⟨last, .head (.take hleft (Nat.succ_pos n) hreply) hlast, ?_⟩
        simpa [offer, hreply] using hend

/-- The writing of some bytes ends at a moment with a result: the moment is the last one, and the result is a success
if everything is taken and flushed, and else tells what went wrong. -/
structure EndsAt (sink : Sink) (bytes : List UInt8) (result : Except String Unit) (last : Moment) : Prop where
  reaches : sink.Reaches ⟨[], bytes⟩ last
  ends : ∀ next, ¬sink.Takes last next
  ok_iff : result = .ok () ↔ last.left = [] ∧ sink.flush = none
  error : ∀ reason, result = .error reason → sink.BreaksOff last reason ∨ last.left = [] ∧ sink.flush = some reason

theorem exists_end_writeAll (sink : Sink) (bytes : List UInt8) :
    ∃ result last, sink.writeAll bytes = (result, last.received) ∧ sink.EndsAt bytes result last := by
  obtain ⟨last, hreaches, ⟨hleft, hoffer⟩ | ⟨reason, hbreaks, hoffer⟩⟩ :=
    sink.exists_end_offer [] (Nat.lt_succ_self bytes.length)
  · have hends (next : Moment) : ¬sink.Takes last next := not_takes_of_left_eq_nil hleft
    cases hflush : sink.flush with
    | none =>
      refine ⟨.ok (), last, by simp [writeAll, hoffer, hflush], hreaches, hends, ?_, ?_⟩
      · simp [hleft, hflush]
      · simp
    | some reason =>
      refine ⟨.error reason, last, by simp [writeAll, hoffer, hflush], hreaches, hends, ?_, ?_⟩
      · simp [hflush]
      · simp [hleft, hflush]
  · refine ⟨.error reason, last, by simp [writeAll, hoffer], hreaches, fun _ => hbreaks.not_takes, ?_, ?_⟩
    · simp [hbreaks.left_ne_nil]
    · rintro _ ⟨⟩
      exact .inl hbreaks

end Sink

/-- The bytes of a text. -/
def textBytes (text : String) : List UInt8 := text.toUTF8.data.toList

namespace Registry

variable {α : Type} [Encode α]

theorem toSink_of_ok {r : Registry} {x : α} {text : String} (h : r.toText x = .ok text) (sink : Sink) :
    r.toSink x sink =
      ((sink.writeAll (textBytes text)).1.mapError .io, (sink.writeAll (textBytes text)).2) := by
  unfold toSink textBytes
  rw [h]
  dsimp only
  rcases sink.writeAll text.toUTF8.data.toList with ⟨_ | _, _⟩ <;> rfl

/-- **A sink gets a beginning of the text, or all of it.**  If a value cannot be written the sink receives nothing, and
the error is that of the value.  If it has a text, what the sink has received and what is left make up the bytes of
the text at every moment until the last; the writing succeeds exactly if all bytes are received and flushed, and every
error is one of the sink: it failed, it took nothing of what was left, or it failed to flush. -/
theorem toSink_receives (r : Registry) (x : α) (sink : Sink) :
    (∀ e, r.toText x = .error e → r.toSink x sink = (.error e, [])) ∧
    ∀ text, r.toText x = .ok text → ∃ last : Moment,
      (r.toSink x sink).2 = last.received ∧
      sink.Reaches ⟨[], textBytes text⟩ last ∧
      (∀ m, sink.Reaches ⟨[], textBytes text⟩ m → m.received ++ m.left = textBytes text ∧ sink.Reaches m last) ∧
      ((r.toSink x sink).1 = .ok () ↔ (r.toSink x sink).2 = textBytes text ∧ sink.flush = none) ∧
      ∀ e, (r.toSink x sink).1 = .error e → ∃ reason, e = .io reason ∧
        (sink.BreaksOff last reason ∨ last.left = [] ∧ sink.flush = some reason) := by
  refine ⟨fun e he => by rw [toSink, he], fun text htext => ?_⟩
  obtain ⟨result, last, hwrite, hend⟩ := sink.exists_end_writeAll (textBytes text)
  rw [toSink_of_ok htext sink, hwrite]
  have hwhole : last.received ++ last.left = textBytes text := hend.reaches.append_eq
  refine ⟨last, rfl, hend.reaches, fun m hm => ⟨hm.append_eq, hm.to_last hend.reaches hend.ends⟩, ?_, ?_⟩
  · have hall : last.received = textBytes text ↔ last.left = [] := by
      rw [← hwhole]
      simp
    dsimp only
    rw [hall, ← hend.ok_iff]
    cases result with
    | ok _ => exact ⟨fun _ => rfl, fun _ => rfl⟩
    | error reason => exact ⟨nofun, nofun⟩
  · intro e he
    cases result with
    | ok _ => cases he
    | error reason =>
      obtain rfl := Except.error.inj he
      exact ⟨reason, rfl, hend.error reason rfl⟩

end Registry

end PropertyGraph
