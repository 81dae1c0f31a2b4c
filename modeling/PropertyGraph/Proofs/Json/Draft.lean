import PropertyGraph.Proofs.Json.Tree

/-!
# Trees in the making

What a writer holds when no event was refused: a tree of which a part is written.  A draft is the arrays and
objects that are open, each with what stands in it so far, or a tree that is written to its end; it has no state
that a writer could not be in.  The key fact: a writer takes an event if and only if the draft has a place for it,
and is then the writer of the next draft (`follows_write`).
-/

namespace PropertyGraph

open Json Reader

/-- The place of a value in an open array or object, with what stands before it. -/
inductive JsonHole where
  | item (before : List JsonTree)
  | member (before : List (String × JsonTree)) (name : String)

/-- A tree in the making: nothing, a whole tree, or what is in the innermost array or object so far and the
places of the open ones, from the inside out.  In an object a name may await its value. -/
inductive JsonDraft where
  | fresh
  | done (t : JsonTree)
  | inArray (items : List JsonTree) (outer : List JsonHole)
  | inObject (members : List (String × JsonTree)) (outer : List JsonHole)
  | named (members : List (String × JsonTree)) (name : String) (outer : List JsonHole)

/-! ### Places of values -/

namespace JsonHole

/-- The comma before a further item or member. -/
def comma {α : Type} (before : List α) : List Char := if 0 < before.length then [','] else []

/-- What is written in an array or object before the place of a value. -/
def text : JsonHole → List Char
  | item before => '[' :: (commaJoin (JsonTree.itemTexts before) ++ comma before)
  | member before name =>
    '\x7b' :: (commaJoin ((JsonTree.memberTexts before).map memberText) ++ comma before ++ stringChars name ++ [':'])

/-- The open array or object as a writer keeps it while the value is written. -/
def frame : JsonHole → Frame
  | item before => .array (before.length + 1)
  | member before _ => .object (before.length + 1) false

/-- The events before the place of a value. -/
def events : JsonHole → List Event
  | item before => .beginArray :: JsonTree.eventsOfItems before
  | member before name => .beginObject :: (JsonTree.eventsOfMembers before ++ [.fieldName name])

/-- What is written before the innermost of some places. -/
def outerText (holes : List JsonHole) : List Char := holes.reverse.flatMap text

/-- The events before the innermost of some places. -/
def outerEvents (holes : List JsonHole) : List Event := holes.reverse.flatMap events

/-- A writer that stands at the innermost of some places. -/
def writer (holes : List JsonHole) : JsonWriter := ⟨String.ofList (outerText holes), holes.map frame, true⟩

theorem outerText_cons (hole : JsonHole) (outer : List JsonHole) :
    outerText (hole :: outer) = outerText outer ++ hole.text := by
  simp [outerText]

@[simp]
theorem outerEvents_cons (hole : JsonHole) (outer : List JsonHole) :
    outerEvents (hole :: outer) = outerEvents outer ++ hole.events := by
  simp [outerEvents]

end JsonHole

namespace JsonDraft

open JsonHole

/-- The places of the open arrays and objects if a value may stand where the draft stands. -/
def enter : JsonDraft → Option (List JsonHole)
  | fresh => some []
  | done _ => none
  | inArray items outer => some (.item items :: outer)
  | inObject _ _ => none
  | named members name outer => some (.member members name :: outer)

/-- The draft after a tree is put into the innermost place. -/
def fill (holes : List JsonHole) (t : JsonTree) : JsonDraft :=
  match holes with
  | [] => done t
  | .item before :: outer => inArray (before ++ [t]) outer
  | .member before name :: outer => inObject (before ++ [(name, t)]) outer

/-- The draft after an event, if the event has a place in it. -/
def step (d : JsonDraft) (event : Event) : Option JsonDraft :=
  match event, d with
  | .beginArray, d => d.enter.map (inArray [])
  | .beginObject, d => d.enter.map (inObject [])
  | .endArray, inArray items outer => some (fill outer (.array items))
  | .endObject, inObject members outer => some (fill outer (.object members))
  | .fieldName name, inObject members outer => some (named members name outer)
  | .stringField name value, inObject members outer =>
    some (fill (.member members name :: outer) (.leaf (.string value)))
  | event, d => event.leaf?.bind fun l => d.enter.map (fill · (.leaf l))

/-- The draft after events, if each of them has a place. -/
def run (d : JsonDraft) (events : List Event) : Option JsonDraft := events.foldlM step d

/-- What is written of a draft. -/
def text : JsonDraft → List Char
  | fresh => []
  | done t => t.compact
  | inArray items outer => outerText outer ++ '[' :: commaJoin (JsonTree.itemTexts items)
  | inObject members outer => outerText outer ++ '\x7b' :: commaJoin ((JsonTree.memberTexts members).map memberText)
  | named members name outer => outerText (.member members name :: outer)

/-- The open arrays and objects as a writer keeps them. -/
def frames : JsonDraft → List Frame
  | fresh | done _ => []
  | inArray items outer => .array items.length :: outer.map frame
  | inObject members outer => .object members.length false :: outer.map frame
  | named members _ outer => .object (members.length + 1) true :: outer.map frame

/-- Whether the root value is begun. -/
def isBegun : JsonDraft → Bool
  | fresh => false
  | _ => true

/-- The writer that holds a draft. -/
def writer (d : JsonDraft) : JsonWriter := ⟨String.ofList d.text, d.frames, d.isBegun⟩

/-- The events that lead to a draft. -/
def events : JsonDraft → List Event
  | fresh => []
  | done t => t.events
  | inArray items outer => outerEvents outer ++ .beginArray :: JsonTree.eventsOfItems items
  | inObject members outer => outerEvents outer ++ .beginObject :: JsonTree.eventsOfMembers members
  | named members name outer => outerEvents (.member members name :: outer)

theorem isComplete_writer (d : JsonDraft) : d.writer.isComplete ↔ ∃ t, d = done t := by
  cases d <;> simp [writer, JsonWriter.isComplete, isBegun, frames]

/-! ### A value at its place -/

private theorem commaJoin_append (texts : List (List Char)) (text : List Char) :
    commaJoin (texts ++ [text]) = commaJoin texts ++ comma texts ++ text := by
  cases texts with
  | nil => simp [commaJoin, comma]
  | cons first texts =>
    rw [List.cons_append, commaJoin_cons, commaJoin_cons]
    simp [commaTail, comma]

private theorem ofList_push (s : List Char) (c : Char) : (String.ofList s).push c = String.ofList (s ++ [c]) := by
  apply String.toList_injective
  simp

/-- A tree at its place is its text behind what is written before the place. -/
theorem fill_writer (holes : List JsonHole) (t : JsonTree) :
    (fill holes t).writer = { JsonHole.writer holes with
      buffer := String.ofList (outerText holes ++ t.compact) } := by
  match holes with
  | [] => rfl
  | .item before :: outer =>
    have htext : (fill (.item before :: outer) t).text = outerText (.item before :: outer) ++ t.compact := by
      simp [fill, text, outerText_cons, JsonHole.text, JsonTree.itemTexts_eq_map, commaJoin_append, comma]
    rw [JsonDraft.writer, htext]
    simp [JsonHole.writer, fill, frames, isBegun, JsonHole.frame]
  | .member before name :: outer =>
    have htext : (fill (.member before name :: outer) t).text =
        outerText (.member before name :: outer) ++ t.compact := by
      simp [fill, text, outerText_cons, JsonHole.text, JsonTree.memberTexts_eq_map, commaJoin_append, comma,
        memberText]
    rw [JsonDraft.writer, htext]
    simp [JsonHole.writer, fill, frames, isBegun, JsonHole.frame]

theorem fill_events (holes : List JsonHole) (t : JsonTree) :
    (fill holes t).events = outerEvents holes ++ t.events := by
  match holes with
  | [] => rfl
  | .item before :: outer => simp [fill, events, JsonHole.events, JsonTree.eventsOfItems_append]
  | .member before name :: outer => simp [fill, events, JsonHole.events, JsonTree.eventsOfMembers_append]

theorem outerEvents_of_enter {d : JsonDraft} {holes : List JsonHole} (h : d.enter = some holes) :
    outerEvents holes = d.events := by
  cases d <;> cases h
  · rfl
  · rw [outerEvents_cons]
    rfl
  · rfl

/-! ### Steps of a writer -/

theorem run_put (s : List Char) (w : JsonWriter) :
    (JsonWriter.put s).run w = .ok () { w with buffer := w.buffer ++ String.ofList s } := rfl

theorem run_then {first next : Write Unit} {w w' : JsonWriter} (h : first.run w = .ok () w') :
    (first >>= fun _ => next).run w = next.run w' := by
  rw [EStateM.run_bind, h]

theorem run_then_error {first next : Write Unit} {w w' : JsonWriter} {e : EncodeError}
    (h : first.run w = .error e w') : (first >>= fun _ => next).run w = .error e w' := by
  rw [EStateM.run_bind, h]

/-- A value is begun if it has a place, and then the writer stands there; else nothing changes. -/
theorem run_place (d : JsonDraft) :
    match d.enter with
    | some holes => JsonWriter.place.run d.writer = .ok () (JsonHole.writer holes)
    | none => ∃ e, JsonWriter.place.run d.writer = .error e d.writer := by
  cases d with
  | fresh => rfl
  | done t => exact ⟨_, rfl⟩
  | inArray items outer =>
    have hbuffer : (if 0 < items.length then (String.ofList (inArray items outer).text).push ',' else
        String.ofList (inArray items outer).text) = String.ofList (outerText (.item items :: outer)) := by
      by_cases h : 0 < items.length
      · rw [if_pos h, ofList_push]
        congr 1
        simp [h, text, outerText_cons, JsonHole.text, comma]
      · simp [h, text, outerText_cons, JsonHole.text, comma]
    show EStateM.Result.ok () (JsonWriter.mk (if 0 < items.length then
      (String.ofList (inArray items outer).text).push ',' else String.ofList (inArray items outer).text) _ _) = _
    rw [hbuffer]
    rfl
  | inObject members outer => exact ⟨_, rfl⟩
  | named members name outer => rfl

private theorem run_put_writer (holes : List JsonHole) (t : JsonTree) :
    (JsonWriter.put t.compact).run (JsonHole.writer holes) = .ok () (fill holes t).writer := by
  rw [run_put, fill_writer]
  simp [JsonHole.writer]

/-- A step that takes the writer of a draft to the writer of the next one, or fails if there is none. -/
def Follows (write : Write Unit) (d : JsonDraft) (next : Option JsonDraft) : Prop :=
  match next with
  | some d' => write.run d.writer = .ok () d'.writer
  | none => ∃ e w, write.run d.writer = .error e w

private theorem follows_after_place {d : JsonDraft} {write : Write Unit} {next : List JsonHole → JsonDraft}
    (h : ∀ holes, write.run (JsonHole.writer holes) = .ok () (next holes).writer) :
    Follows (JsonWriter.place >>= fun _ => write) d (d.enter.map next) := by
  have hplace := run_place d
  cases henter : d.enter with
  | none =>
    rw [henter] at hplace
    obtain ⟨e, he⟩ := hplace
    exact ⟨e, _, run_then_error he⟩
  | some holes =>
    rw [henter] at hplace
    show (JsonWriter.place >>= fun _ => write).run d.writer = _
    rw [run_then hplace, h holes]

private theorem follows_scalar (d : JsonDraft) (t : JsonTree) :
    Follows (JsonWriter.scalar t.compact) d (d.enter.map (fill · t)) :=
  follows_after_place fun holes => run_put_writer holes t

private theorem follows_beginArray (d : JsonDraft) : Follows JsonWriter.beginArray d (d.enter.map (inArray [])) := by
  refine follows_after_place fun holes => ?_
  show EStateM.Result.ok () (JsonWriter.mk ((String.ofList (outerText holes)).push '[') _ _) = _
  rw [ofList_push]
  rfl

private theorem follows_beginObject (d : JsonDraft) :
    Follows JsonWriter.beginObject d (d.enter.map (inObject [])) := by
  refine follows_after_place fun holes => ?_
  show EStateM.Result.ok () (JsonWriter.mk ((String.ofList (outerText holes)).push '\x7b') _ _) = _
  rw [ofList_push]
  rfl

private theorem run_endArray (items : List JsonTree) (outer : List JsonHole) :
    JsonWriter.endArray.run (inArray items outer).writer = .ok () (fill outer (.array items)).writer := by
  rw [fill_writer]
  show EStateM.Result.ok () (JsonWriter.mk ((String.ofList (inArray items outer).text).push ']') _ _) = _
  rw [ofList_push, text, List.append_assoc, List.cons_append, JsonTree.compact]
  rfl

private theorem run_endObject (members : List (String × JsonTree)) (outer : List JsonHole) :
    JsonWriter.endObject.run (inObject members outer).writer = .ok () (fill outer (.object members)).writer := by
  rw [fill_writer]
  show EStateM.Result.ok () (JsonWriter.mk ((String.ofList (inObject members outer).text).push '\x7d') _ _) = _
  rw [ofList_push, text, List.append_assoc, List.cons_append, JsonTree.compact]
  rfl

private theorem run_fieldName (members : List (String × JsonTree)) (name : String) (outer : List JsonHole) :
    (JsonWriter.fieldName name).run (inObject members outer).writer = .ok () (named members name outer).writer := by
  show EStateM.Result.ok () (JsonWriter.mk (String.ofList (inObject members outer).text ++
    String.ofList (comma members ++ stringChars name ++ [':'])) _ _) = _
  rw [← String.ofList_append]
  simp [writer, text, outerText_cons, JsonHole.text, frames, isBegun]

/-! ### Maps of the generic encoder -/

private theorem run_mapEntries_next (texts : List (String × Json)) (w : JsonWriter) :
    (JsonWriter.mapEntries false (texts.map fun entry => (some entry.1, entry.2))).run w =
      .ok () { w with buffer := w.buffer ++ String.ofList (commaTail (texts.map Json.member) ++ ['\x7d']) } := by
  induction texts generalizing w with
  | nil => rfl
  | cons entry texts ih =>
    rw [List.map_cons, JsonWriter.mapEntries, run_then (run_put _ w), ih]
    simp [commaTail, Json.member, String.append_assoc, ← String.ofList_append]

private theorem run_mapEntries (texts : List (String × Json)) (w : JsonWriter) :
    (JsonWriter.mapEntries true (texts.map fun entry => (some entry.1, entry.2))).run w =
      .ok () { w with buffer := w.buffer ++ String.ofList (commaJoin (texts.map Json.member) ++ ['\x7d']) } := by
  cases texts with
  | nil => rfl
  | cons entry texts =>
    rw [List.map_cons, List.map_cons, JsonWriter.mapEntries, run_then (run_put _ w), run_mapEntries_next,
      commaJoin_cons]
    simp [Json.member, String.append_assoc, ← String.ofList_append]

private theorem run_mapEntries_error {entries : List (Option String × Json)} (h : Event.textEntries? entries = none)
    (first : Bool) (w : JsonWriter) : ∃ e w', (JsonWriter.mapEntries first entries).run w = .error e w' := by
  induction entries generalizing first w with
  | nil => cases h
  | cons entry entries ih =>
    obtain ⟨key, value⟩ := entry
    cases key with
    | some key =>
      rw [Event.textEntries?, Option.map_eq_none_iff] at h
      rw [JsonWriter.mapEntries, run_then (run_put _ w)]
      exact ih h false _
    | none => exact ⟨_, _, rfl⟩

private theorem follows_map (d : JsonDraft) (entries : List (Option String × Json)) :
    Follows (JsonWriter.datum (.map entries)) d
      ((Event.textEntries? entries).bind fun texts => d.enter.map (fill · (.leaf (.map texts)))) := by
  cases htexts : Event.textEntries? entries with
  | none =>
    have hplace := run_place d
    cases henter : d.enter with
    | none =>
      rw [henter] at hplace
      obtain ⟨e, he⟩ := hplace
      exact ⟨e, _, run_then_error he⟩
    | some holes =>
      rw [henter] at hplace
      obtain ⟨e, w, hw⟩ := run_mapEntries_error htexts true
        { JsonHole.writer holes with buffer := String.ofList (outerText holes) ++ String.ofList ['\x7b'] }
      exact ⟨e, w, by rw [JsonWriter.datum, run_then hplace, run_then (run_put _ _)]; exact hw⟩
  | some texts =>
    obtain rfl := Event.textEntries?_eq_some_iff.1 htexts
    refine follows_after_place fun holes => ?_
    rw [run_then (run_put _ _), run_mapEntries, fill_writer, JsonTree.compact, JsonLeaf.compact, compact_object]
    rw [JsonHole.writer, ← String.ofList_append, ← String.ofList_append, List.append_assoc]
    rfl

/-! ### Every event -/

/-- A writer takes an event if and only if its draft has a place for it, and is then the writer of the next
draft. -/
theorem follows_write (d : JsonDraft) (event : Event) : Follows event.write d (d.step event) := by
  cases event with
  | beginObject => exact follows_beginObject d
  | beginArray => exact follows_beginArray d
  | endObject =>
    cases d with
    | inObject members outer => exact run_endObject members outer
    | _ => exact ⟨_, _, rfl⟩
  | endArray =>
    cases d with
    | inArray items outer => exact run_endArray items outer
    | _ => exact ⟨_, _, rfl⟩
  | fieldName name =>
    cases d with
    | inObject members outer => exact run_fieldName members name outer
    | _ => exact ⟨_, _, rfl⟩
  | stringField name value =>
    cases d with
    | inObject members outer =>
      show (JsonWriter.fieldName name >>= fun _ => JsonWriter.string value).run _ = _
      rw [run_then (run_fieldName members name outer)]
      exact follows_scalar (named members name outer) (.leaf (.string value))
    | _ => exact ⟨_, _, rfl⟩
  | string s => exact follows_scalar d (.leaf (.string s))
  | int64 n => exact follows_scalar d (.leaf (.int64 n))
  | float64 x =>
    cases x with
    | finite x => exact follows_scalar d (.leaf (.float64 x))
    | _ => exact ⟨_, _, rfl⟩
  | float32 x =>
    cases x with
    | finite x => exact follows_scalar d (.leaf (.float32 x))
    | _ => exact ⟨_, _, rfl⟩
  | bool b => exact follows_scalar d (.leaf (.bool b))
  | null => exact follows_scalar d (.leaf .null)
  | datum v =>
    cases v with
    | json j => exact follows_scalar d (.leaf (.json j))
    | map entries =>
      show Follows _ d (((Event.textEntries? entries).map JsonLeaf.map).bind _)
      rw [Option.bind_map]
      exact follows_map d entries

end JsonDraft

end PropertyGraph
