import PropertyGraph.Proofs.Json.Draft

/-!
# Values where they may stand

What writing a value does to any writer, not only to one that was never misused: a value that may stand where a
writer stands is written as its text behind a comma where one is due, and one more value is accounted for in the
innermost array or object.  Steps of writing compose: what puts items or members between brackets puts one value.
The key facts: an item or a member is written in the same way behind any others (`AddsItems.cons`,
`AddsMembers.append`), and items or members between brackets are written as one array (`AddsItems.puts_array`) or
object (`AddsMembers.puts_object`).
-/

namespace PropertyGraph

open Json Json.Reader JsonDraft

namespace JsonWriter

/-! ### Places -/

/-- Whether a value may be written where a writer stands. -/
def hasPlace (w : JsonWriter) : Bool :=
  match w.frames with
  | [] => !w.rootWritten
  | .object _ awaitsValue :: _ => awaitsValue
  | .array _ :: _ => true

/-- What stands between a value and what was written before: a comma if the innermost frame is an array that is
not empty. -/
def separator (w : JsonWriter) : String :=
  match w.frames with
  | .array (_ + 1) :: _ => ","
  | _ => ""

/-- The frames with one more value accounted for in the innermost. -/
def accounted : List Frame → List Frame
  | [] => []
  | .object members _ :: outer => .object members false :: outer
  | .array items :: outer => .array (items + 1) :: outer

/-- The writer after a value with a text is written where the writer stands. -/
def withValue (w : JsonWriter) (text : String) : JsonWriter where
  buffer := w.buffer ++ w.separator ++ text
  frames := accounted w.frames
  rootWritten := w.frames.isEmpty || w.rootWritten

/-- The writer after a part of a value is written, of which an array or object is open. -/
def opened (w : JsonWriter) (text : List Char) (frame : Frame) : JsonWriter :=
  { w.withValue (String.ofList text) with frames := frame :: accounted w.frames }

variable {w : JsonWriter}

theorem run_place_of_hasPlace (h : w.hasPlace) : place.run w = .ok () (w.withValue "") := by
  obtain ⟨buffer, frames, rootWritten⟩ := w
  match frames with
  | [] =>
    obtain rfl : rootWritten = false := by simpa [hasPlace] using h
    simp [withValue, separator, accounted, place, EStateM.run]
  | .object members awaits :: outer =>
    obtain rfl : awaits = true := h
    simp [withValue, separator, accounted, place, EStateM.run]
  | .array 0 :: outer => simp [withValue, separator, accounted, place, EStateM.run]
  | .array (items + 1) :: outer =>
    simp [withValue, separator, accounted, place, EStateM.run, ← String.append_singleton]

/-- A value has a place exactly where one can be begun. -/
theorem hasPlace_iff : w.hasPlace ↔ ∃ w', place.run w = .ok () w' := by
  constructor
  · intro h
    exact ⟨_, run_place_of_hasPlace h⟩
  · rintro ⟨w', h⟩
    obtain ⟨buffer, frames, rootWritten⟩ := w
    match frames, rootWritten with
    | [], false => rfl
    | .object _ true :: _, _ => rfl
    | .array _ :: _, _ => rfl
    | [], true => cases h
    | .object _ false :: _, _ => cases h

theorem run_put_withValue (text : String) (s : List Char) :
    (put s).run (w.withValue text) = .ok () (w.withValue (text ++ String.ofList s)) := by
  rw [run_put, withValue, withValue, String.append_assoc]

theorem run_scalar (h : w.hasPlace) (s : List Char) :
    (scalar s).run w = .ok () (w.withValue (String.ofList s)) := by
  rw [scalar, run_then (run_place_of_hasPlace h), run_put_withValue, String.empty_append]

/-- A text that is written as the only value is the whole text. -/
theorem finish_withValue (text : String) : (withValue {} text).finish = .ok text := by
  simp [finish, isComplete, withValue, accounted, separator]

/-! ### Open arrays and objects -/

theorem run_beginArray (h : w.hasPlace) : beginArray.run w = .ok () (w.opened ['['] (.array 0)) := by
  rw [beginArray, run_then (run_place_of_hasPlace h)]
  simp [opened, withValue, EStateM.run, ← String.append_singleton]
  rfl

theorem run_beginObject (h : w.hasPlace) : beginObject.run w = .ok () (w.opened ['\x7b'] (.object 0 false)) := by
  rw [beginObject, run_then (run_place_of_hasPlace h)]
  simp [opened, withValue, EStateM.run, ← String.append_singleton]
  rfl

theorem run_endArray (text : List Char) (items : Nat) :
    endArray.run (w.opened text (.array items)) = .ok () (w.withValue (String.ofList (text ++ [']']))) := by
  simp [opened, withValue, endArray, EStateM.run, ← String.append_singleton, String.append_assoc]

theorem run_endObject (text : List Char) (members : Nat) :
    endObject.run (w.opened text (.object members false)) =
      .ok () (w.withValue (String.ofList (text ++ ['\x7d']))) := by
  simp [opened, withValue, endObject, EStateM.run, ← String.append_singleton, String.append_assoc]

/-- Texts behind others of a given number, each with the comma before it. -/
def joinedFrom (n : Nat) (texts : List (List Char)) : List Char :=
  if n = 0 then commaJoin texts else commaTail texts

theorem joinedFrom_nil (n : Nat) : joinedFrom n [] = [] := by
  unfold joinedFrom
  split <;> rfl

theorem joinedFrom_cons (n : Nat) (text : List Char) (texts : List (List Char)) :
    joinedFrom n (text :: texts) = (if n = 0 then [] else [',']) ++ text ++ joinedFrom (n + 1) texts := by
  unfold joinedFrom
  split
  · rw [commaJoin_cons]
    rfl
  · simp [commaTail]

theorem joinedFrom_append (n : Nat) (texts others : List (List Char)) :
    joinedFrom n (texts ++ others) = joinedFrom n texts ++ joinedFrom (n + texts.length) others := by
  induction texts generalizing n with
  | nil => simp [joinedFrom_nil]
  | cons text texts ih =>
    rw [List.cons_append, joinedFrom_cons, joinedFrom_cons, ih, List.length_cons, Nat.add_right_comm, ← Nat.add_assoc]
    simp only [List.append_assoc]

theorem joinedFrom_item (s : List Char) (n : Nat) (t : JsonTree) (items : List JsonTree) :
    s ++ joinedFrom n [t.compact] ++ joinedFrom (n + 1) (JsonTree.itemTexts items) =
      s ++ joinedFrom n (JsonTree.itemTexts (t :: items)) := by
  rw [JsonTree.itemTexts, List.append_assoc]
  exact congrArg (s ++ ·) (joinedFrom_append n [t.compact] (JsonTree.itemTexts items)).symm

theorem joinedFrom_member (s : List Char) (n : Nat) (name : String) (t : JsonTree) :
    s ++ joinedFrom n [stringChars name ++ [':']] ++ t.compact =
      s ++ joinedFrom n ((JsonTree.memberTexts [(name, t)]).map memberText) := by
  cases n <;> simp [joinedFrom, commaJoin, commaTail, memberText, JsonTree.memberTexts]

theorem joinedFrom_members (s : List Char) (n : Nat) (ms ns : List (String × JsonTree)) :
    s ++ joinedFrom n ((JsonTree.memberTexts ms).map memberText) ++
        joinedFrom (n + ms.length) ((JsonTree.memberTexts ns).map memberText) =
      s ++ joinedFrom n ((JsonTree.memberTexts (ms ++ ns)).map memberText) := by
  simp only [JsonTree.memberTexts_eq_map, List.map_append, joinedFrom_append, List.length_map, List.append_assoc]

theorem withValue_item (s text : List Char) (items : Nat) :
    (w.opened s (.array items)).withValue (String.ofList text) =
      w.opened (s ++ joinedFrom items [text]) (.array (items + 1)) := by
  cases items <;>
    simp [opened, withValue, separator, accounted, joinedFrom, commaJoin, commaTail, String.append_assoc]

theorem run_fieldName (s : List Char) (members : Nat) (name : String) :
    (fieldName name).run (w.opened s (.object members false)) =
      .ok () (w.opened (s ++ joinedFrom members [stringChars name ++ [':']]) (.object (members + 1) true)) := by
  cases members <;>
    simp [opened, withValue, fieldName, EStateM.run, joinedFrom, commaJoin, commaTail, String.append_assoc]

theorem withValue_member (s text : List Char) (members : Nat) :
    (w.opened s (.object members true)).withValue (String.ofList text) =
      w.opened (s ++ text) (.object members false) := by
  simp [opened, withValue, separator, accounted, String.append_assoc]

/-! ### Steps and where they lead -/

/-- A step of writing that takes a writer to the next one, or fails if there is none. -/
def LeadsTo (write : Write Unit) (w : JsonWriter) (next : Option JsonWriter) : Prop :=
  match next with
  | some w' => write.run w = .ok () w'
  | none => ∃ e last, write.run w = .error e last

theorem LeadsTo.andThen {first second : Write Unit} {w w' : JsonWriter} {next : Option JsonWriter}
    (h : first.run w = .ok () w') (h' : LeadsTo second w' next) : LeadsTo (first >>= fun _ => second) w next := by
  have hrun : (first >>= fun _ => second).run w = second.run w' := run_then h
  unfold LeadsTo at h' ⊢
  rwa [hrun]

theorem LeadsTo.stop {first : Write Unit} {w : JsonWriter} (h : LeadsTo first w none) (second : Write Unit) :
    LeadsTo (first >>= fun _ => second) w none := by
  obtain ⟨e, last, hrun⟩ := h
  exact ⟨e, last, run_then_error hrun⟩

end JsonWriter

open JsonWriter

/-- A step of writing that puts the text of a tree wherever a value may stand, or fails there if there is none. -/
def Puts (write : Write Unit) (t? : Option JsonTree) : Prop :=
  ∀ w : JsonWriter, w.hasPlace → LeadsTo write w (t?.map fun t => w.withValue (String.ofList t.compact))

/-- A step of writing that adds items to an open array, or fails there if there are none. -/
def AddsItems (write : Write Unit) (items? : Option (List JsonTree)) : Prop :=
  ∀ (w : JsonWriter) (s : List Char) (n : Nat),
    LeadsTo write (w.opened s (.array n)) (items?.map fun items =>
      w.opened (s ++ joinedFrom n (JsonTree.itemTexts items)) (.array (n + items.length)))

/-- A step of writing that adds members to an open object, or fails there if there are none. -/
def AddsMembers (write : Write Unit) (members? : Option (List (String × JsonTree))) : Prop :=
  ∀ (w : JsonWriter) (s : List Char) (n : Nat),
    LeadsTo write (w.opened s (.object n false)) (members?.map fun members =>
      w.opened (s ++ joinedFrom n ((JsonTree.memberTexts members).map memberText)) (.object (n + members.length) false))

variable {write rest : Write Unit}

theorem puts_leaf (l : JsonLeaf) : Puts (scalar l.compact) (some (.leaf l)) := by
  intro w hw
  show (scalar l.compact).run w = .ok () (w.withValue (String.ofList (JsonTree.leaf l).compact))
  rw [JsonTree.compact]
  exact run_scalar hw l.compact

theorem puts_none {e : EncodeError} (h : ∀ w, write.run w = .error e w) : Puts write none := fun w _ =>
  ⟨e, w, h _⟩

theorem addsItems_nil : AddsItems (pure ()) (some []) := by
  intro w s n
  show (pure () : Write Unit).run _ = .ok () (w.opened (s ++ joinedFrom n []) (.array n))
  rw [joinedFrom_nil, List.append_nil]
  rfl

theorem AddsItems.cons {t? : Option JsonTree} {items? : Option (List JsonTree)} (h : Puts write t?)
    (h' : AddsItems rest items?) :
    AddsItems (write >>= fun _ => rest) (t?.bind fun t => items?.map (t :: ·)) := by
  intro w s n
  -- the rest is written behind the first item, so it has to be known for every beginning of the array
  have hhead := h (w.opened s (.array n)) rfl
  cases t? with
  | none => exact hhead.stop rest
  | some t =>
    rw [Option.map_some, withValue_item] at hhead
    have htail := LeadsTo.andThen hhead (h' w (s ++ joinedFrom n [t.compact]) (n + 1))
    cases items? with
    | none => exact htail
    | some items =>
      rw [Option.map_some, joinedFrom_item, Nat.add_right_comm] at htail
      exact htail

/-- Items between brackets are an array. -/
theorem AddsItems.puts_array {items? : Option (List JsonTree)} (h : AddsItems write items?) :
    Puts (beginArray >>= fun _ => write >>= fun _ => endArray) (items?.map .array) := by
  intro w hw
  refine LeadsTo.andThen (run_beginArray hw) ?_
  have hitems := h w ['['] 0
  cases items? with
  | none => exact hitems.stop endArray
  | some items => exact LeadsTo.andThen hitems (run_endArray _ _)

theorem addsMembers_nil : AddsMembers (pure ()) (some []) := by
  intro w s n
  show (pure () : Write Unit).run _ = .ok () (w.opened (s ++ joinedFrom n []) (.object n false))
  rw [joinedFrom_nil, List.append_nil]
  rfl

theorem addsMembers_member (name : String) {t? : Option JsonTree} (h : Puts write t?) :
    AddsMembers (fieldName name >>= fun _ => write) (t?.map fun t => [(name, t)]) := by
  intro w s n
  refine LeadsTo.andThen (run_fieldName s n name) ?_
  have hvalue := h (w.opened (s ++ joinedFrom n [stringChars name ++ [':']]) (.object (n + 1) true)) rfl
  cases t? with
  | none => exact hvalue
  | some t =>
    rw [Option.map_some, withValue_member, joinedFrom_member] at hvalue
    exact hvalue

theorem AddsMembers.append {first second : Write Unit} {ms? ns? : Option (List (String × JsonTree))}
    (h : AddsMembers first ms?) (h' : AddsMembers second ns?) :
    AddsMembers (first >>= fun _ => second) (ms?.bind fun ms => ns?.map (ms ++ ·)) := by
  intro w s n
  have hfirst := h w s n
  cases ms? with
  | none => exact hfirst.stop second
  | some ms =>
    have hsecond := LeadsTo.andThen hfirst (h' w _ (n + ms.length))
    cases ns? with
    | none => exact hsecond
    | some ns =>
      rw [Option.map_some, joinedFrom_members, Nat.add_assoc, ← List.length_append] at hsecond
      exact hsecond

/-- Members between braces are an object. -/
theorem AddsMembers.puts_object {members? : Option (List (String × JsonTree))} (h : AddsMembers write members?) :
    Puts (beginObject >>= fun _ => write >>= fun _ => endObject) (members?.map .object) := by
  intro w hw
  refine LeadsTo.andThen (run_beginObject hw) ?_
  have hmembers := h w ['\x7b'] 0
  cases members? with
  | none => exact hmembers.stop endObject
  | some members => exact LeadsTo.andThen hmembers (run_endObject _ _)

/-! ### Steps that break off -/

/-- A step of writing that, unless there is an error, takes a writer to the next one.  If there is one, it fails with
it, leaves a writer that is not complete, and has written a proper beginning of what the next writer would hold. -/
def Reaches (write : Write Unit) (w : JsonWriter) (error? : Option EncodeError) (next : JsonWriter) : Prop :=
  match error? with
  | none => write.run w = .ok () next
  | some e => ∃ last more, write.run w = .error e last ∧ last.isComplete = false ∧ more ≠ "" ∧
      next.buffer = last.buffer ++ more

/-- A step of writing that, unless there is an error, puts the text of a tree wherever a value may stand. -/
def Attempts (write : Write Unit) (error? : Option EncodeError) (t : JsonTree) : Prop :=
  ∀ w : JsonWriter, w.hasPlace → Reaches write w error? (w.withValue (String.ofList t.compact))

/-- A step of writing that, unless there is an error, adds items to an open array. -/
def AttemptsItems (write : Write Unit) (error? : Option EncodeError) (items : List JsonTree) : Prop :=
  ∀ (w : JsonWriter) (s : List Char) (n : Nat),
    Reaches write (w.opened s (.array n)) error?
      (w.opened (s ++ joinedFrom n (JsonTree.itemTexts items)) (.array (n + items.length)))

/-- A step of writing that, unless there is an error, adds members to an open object. -/
def AttemptsMembers (write : Write Unit) (error? : Option EncodeError) (members : List (String × JsonTree)) : Prop :=
  ∀ (w : JsonWriter) (s : List Char) (n : Nat),
    Reaches write (w.opened s (.object n false)) error?
      (w.opened (s ++ joinedFrom n ((JsonTree.memberTexts members).map memberText))
        (.object (n + members.length) false))

theorem attemptsMembers_of_adds {members : List (String × JsonTree)} (h : AddsMembers write (some members)) :
    AttemptsMembers write none members := h

variable {w next last : JsonWriter} {error? other? : Option EncodeError}

theorem Reaches.after (h : write.run w = .ok () next) (h' : Reaches rest next error? last) :
    Reaches (write >>= fun _ => rest) w error? last := by
  have hrun : (write >>= fun _ => rest).run w = rest.run next := run_then h
  unfold Reaches at h' ⊢
  rwa [hrun]

/-- Of two steps the first error counts; the second step only appends to what the first has written. -/
theorem Reaches.andThen (h : Reaches write w error? next) (h' : Reaches rest next other? last)
    (happend : ∃ more, last.buffer = next.buffer ++ more) :
    Reaches (write >>= fun _ => rest) w (error?.or other?) last := by
  cases error? with
  | some e =>
    obtain ⟨stopped, more, hrun, hopen, hmore, hbuffer⟩ := h
    obtain ⟨further, hfurther⟩ := happend
    refine ⟨stopped, more ++ further, run_then_error hrun, hopen, ?_, by rw [hfurther, hbuffer, String.append_assoc]⟩
    simp [String.append_eq_empty_iff, hmore]
  | none => exact Reaches.after h h'

theorem Reaches.adaptExcept (h : Reaches write w error? next) (f : EncodeError → EncodeError) :
    Reaches (write.adaptExcept f) w (error?.map f) next := by
  cases error? with
  | none =>
    show (write.adaptExcept f).run w = _
    rw [EStateM.run_adaptExcept, show write.run w = .ok () next from h]
  | some e =>
    obtain ⟨stopped, more, hrun, hopen⟩ := h
    exact ⟨stopped, more, by rw [EStateM.run_adaptExcept, hrun], hopen⟩

/-- A value that is refused before anything of it is written could have been any other. -/
theorem attempts_of_refused {e : EncodeError} (h : ∀ w, write.run w = .error e w) (t : JsonTree) :
    Attempts write (some e) t := by
  intro w hw
  have hopen : w.isComplete = false := by
    obtain ⟨buffer, frames, rootWritten⟩ := w
    cases frames with
    | nil =>
      obtain rfl : rootWritten = false := by simpa [hasPlace] using hw
      rfl
    | cons frame outer => simp [isComplete]
  have htext : w.separator ++ String.ofList t.compact ≠ "" := by
    obtain ⟨c, more, htext, -⟩ := t.spells_compact.starts
    simp [htext, String.append_eq_empty_iff]
  exact ⟨w, _, h w, hopen, htext, String.append_assoc ..⟩

theorem buffer_opened_append (w : JsonWriter) (s more : List Char) (frame frame' : Frame) :
    (w.opened (s ++ more) frame).buffer = (w.opened s frame').buffer ++ String.ofList more := by
  simp [opened, withValue, String.append_assoc]

theorem AttemptsItems.cons {t : JsonTree} {items : List JsonTree} (h : Attempts write error? t)
    (h' : AttemptsItems rest other? items) :
    AttemptsItems (write >>= fun _ => rest) (error?.or other?) (t :: items) := by
  intro w s n
  have hhead := h (w.opened s (.array n)) rfl
  have htail := h' w (s ++ joinedFrom n [t.compact]) (n + 1)
  rw [withValue_item] at hhead
  have hboth := hhead.andThen htail ⟨_, buffer_opened_append ..⟩
  rw [joinedFrom_item, Nat.add_right_comm] at hboth
  exact hboth

theorem Reaches.close {close : Write Unit} (h : Reaches write w error? next) (h' : close.run next = .ok () last)
    (happend : ∃ more, last.buffer = next.buffer ++ more) :
    Reaches (write >>= fun _ => close) w error? last := by
  have hboth : Reaches (write >>= fun _ => close) w (error?.or none) last := h.andThen h' happend
  rwa [Option.or_none] at hboth

/-- Items between brackets are an array, unless there is an error. -/
theorem AttemptsItems.attempts_array {items : List JsonTree} (h : AttemptsItems write error? items) :
    Attempts (beginArray >>= fun _ => write >>= fun _ => endArray) error? (.array items) := by
  intro w hw
  have hitems := (h w ['['] 0).close (run_endArray _ _) ⟨"]", by simp [opened, withValue, String.append_assoc]⟩
  rw [JsonTree.compact]
  exact Reaches.after (run_beginArray hw) hitems

theorem attemptsMembers_member (name : String) {t : JsonTree} (h : Attempts write error? t) :
    AttemptsMembers (fieldName name >>= fun _ => write) error? [(name, t)] := by
  intro w s n
  refine Reaches.after (run_fieldName s n name) ?_
  have hvalue := h (w.opened (s ++ joinedFrom n [stringChars name ++ [':']]) (.object (n + 1) true)) rfl
  rw [withValue_member, joinedFrom_member] at hvalue
  exact hvalue

theorem AttemptsMembers.append {first second : Write Unit} {ms ns : List (String × JsonTree)}
    (h : AttemptsMembers first error? ms) (h' : AttemptsMembers second other? ns) :
    AttemptsMembers (first >>= fun _ => second) (error?.or other?) (ms ++ ns) := by
  intro w s n
  have hboth := (h w s n).andThen (h' w _ (n + ms.length)) ⟨_, buffer_opened_append ..⟩
  rw [joinedFrom_members, Nat.add_assoc, ← List.length_append] at hboth
  exact hboth

/-- Members between braces are an object, unless there is an error. -/
theorem AttemptsMembers.attempts_object {members : List (String × JsonTree)}
    (h : AttemptsMembers write error? members) :
    Attempts (beginObject >>= fun _ => write >>= fun _ => endObject) error? (.object members) := by
  intro w hw
  have hmembers := (h w ['\x7b'] 0).close (run_endObject _ _)
    ⟨"\x7d", by simp [opened, withValue, String.append_assoc]⟩
  rw [JsonTree.compact]
  exact Reaches.after (run_beginObject hw) hmembers

end PropertyGraph
