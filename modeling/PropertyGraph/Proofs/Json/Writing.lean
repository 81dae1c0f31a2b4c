import PropertyGraph.Proofs.Json.Draft

/-!
# What a writer writes

Runs of a writer in which no event is refused.  Every such run is a run of a draft, and a draft knows both the
events that led to it and the text that they wrote; so a writer takes the events of trees and of no other
sequences, and what it holds in between is the beginning of a tree.  The key facts: a run without a refusal is a
run of a draft (`exists_run_of_results`), a run over the events of a tree puts the tree where a value may stand
(`run_events`), the events so far can be read off a draft (`events_of_run`), every draft can be completed
(`exists_more`), and a finished writer has written one tree and holds its compact text
(`JsonWriter.takes_exactly_trees`).
-/

namespace PropertyGraph

namespace JsonDraft

open JsonHole

/-! ### Runs of drafts -/

theorem run_append (d : JsonDraft) (before after : List Event) :
    d.run (before ++ after) = (d.run before).bind (run · after) := List.foldlM_append

theorem run_cons (d : JsonDraft) (event : Event) (events : List Event) :
    d.run (event :: events) = (d.step event).bind (run · events) := List.foldlM_cons

theorem run_singleton (d : JsonDraft) (event : Event) : d.run [event] = d.step event := by
  rw [run_cons]
  exact Option.bind_fun_some (d.step event)

/-- An event does to a draft what its parts do one after the other. -/
theorem run_parts (d : JsonDraft) (event : Event) : d.run event.parts = d.step event := by
  cases event with
  | stringField name value => cases d <;> rfl
  | _ => exact run_singleton d _

theorem run_flatMap_parts (d : JsonDraft) (events : List Event) :
    d.run (events.flatMap Event.parts) = d.run events := by
  induction events generalizing d with
  | nil => rfl
  | cons event events ih =>
    rw [List.flatMap_cons, run_append, run_parts, run_cons]
    exact congrArg _ (funext ih)

theorem step_leaf (d : JsonDraft) (l : JsonLeaf) : d.step l.event = d.enter.map (fill · (.leaf l)) := by
  have hleaf := Event.leaf?_eq_some_iff.2 (rfl : l.event = l.event)
  have hstep : d.step l.event = l.event.leaf?.bind fun l => d.enter.map (fill · (.leaf l)) := by
    cases l <;> rfl
  rw [hstep, hleaf, Option.bind_some]

mutual

/-- The events of a tree put it where a value may stand, and have no place anywhere else. -/
theorem run_events (t : JsonTree) (d : JsonDraft) : d.run t.events = d.enter.map (fill · t) := by
  cases t with
  | leaf l =>
    rw [JsonTree.events, run_singleton, step_leaf]
  | array items =>
    rw [JsonTree.events, run_cons, show d.step .beginArray = d.enter.map (inArray []) from rfl]
    cases d.enter with
    | none => rfl
    | some holes =>
      show (inArray [] holes).run (JsonTree.eventsOfItems items ++ [.endArray]) = some (fill holes (.array items))
      rw [run_append, run_eventsOfItems items]
      exact run_singleton _ _
  | object members =>
    rw [JsonTree.events, run_cons, show d.step .beginObject = d.enter.map (inObject []) from rfl]
    cases d.enter with
    | none => rfl
    | some holes =>
      show (inObject [] holes).run (JsonTree.eventsOfMembers members ++ [.endObject]) =
        some (fill holes (.object members))
      rw [run_append, run_eventsOfMembers members]
      exact run_singleton _ _

theorem run_eventsOfItems (items before : List JsonTree) (outer : List JsonHole) :
    (inArray before outer).run (JsonTree.eventsOfItems items) = some (inArray (before ++ items) outer) := by
  cases items with
  | nil => rw [List.append_nil]; rfl
  | cons t ts =>
    rw [JsonTree.eventsOfItems, run_append, run_events t]
    show (inArray (before ++ [t]) outer).run (JsonTree.eventsOfItems ts) = _
    rw [run_eventsOfItems ts, List.append_assoc, List.singleton_append]

theorem run_eventsOfMembers (members before : List (String × JsonTree)) (outer : List JsonHole) :
    (inObject before outer).run (JsonTree.eventsOfMembers members) = some (inObject (before ++ members) outer) := by
  match members with
  | [] => rw [List.append_nil]; rfl
  | (name, t) :: ms =>
    rw [JsonTree.eventsOfMembers, run_cons]
    show (named before name outer).run (t.events ++ _) = _
    rw [run_append, run_events t]
    show (inObject (before ++ [(name, t)]) outer).run (JsonTree.eventsOfMembers ms) = _
    rw [run_eventsOfMembers ms, List.append_assoc, List.singleton_append]

end

/-! ### The events behind a draft -/

theorem events_of_step {d d' : JsonDraft} {event : Event} (h : d.step event = some d') :
    d'.events = d.events ++ event.parts := by
  have hfill {t : JsonTree} (hd' : d.enter.map (fill · t) = some d') : d'.events = d.events ++ t.events := by
    obtain ⟨holes, hholes, rfl⟩ := Option.map_eq_some_iff.1 hd'
    rw [fill_events, outerEvents_of_enter hholes]
  -- scalars and the beginnings of arrays and objects have to find a place, the other events replace the draft
  unfold step at h
  split at h
  case h_7 =>
    obtain ⟨l, hl, hd'⟩ := Option.bind_eq_some_iff.1 h
    obtain rfl := Event.leaf?_eq_some_iff.1 hl
    rw [Event.parts_event]
    exact hfill hd'
  case h_1 =>
    obtain ⟨holes, hholes, rfl⟩ := Option.map_eq_some_iff.1 h
    rw [← outerEvents_of_enter hholes]
    rfl
  case h_2 =>
    obtain ⟨holes, hholes, rfl⟩ := Option.map_eq_some_iff.1 h
    rw [← outerEvents_of_enter hholes]
    rfl
  all_goals obtain rfl := Option.some.inj h
  · rw [fill_events]
    simp [events, JsonTree.events, Event.parts]
  · rw [fill_events]
    simp [events, JsonTree.events, Event.parts]
  · simp [events, JsonHole.events, Event.parts]
  · rw [fill_events]
    simp [events, JsonHole.events, JsonTree.events, JsonLeaf.event, Event.parts]

/-- The events of a run can be read off the draft that it leads to. -/
theorem events_of_run {d d' : JsonDraft} {events : List Event} (h : d.run events = some d') :
    d'.events = d.events ++ events.flatMap Event.parts := by
  induction events generalizing d with
  | nil =>
    obtain rfl := Option.some.inj h
    simp
  | cons event events ih =>
    rw [run_cons] at h
    obtain ⟨next, hstep, hrun⟩ := Option.bind_eq_some_iff.1 h
    rw [ih hrun, events_of_step hstep, List.append_assoc, List.flatMap_cons]

/-! ### Completing a draft -/

private theorem exists_more_fill (holes : List JsonHole) (t : JsonTree) :
    ∃ more t', (fill holes t).run more = some (done t') := by
  -- the arrays and objects around the tree are closed from the innermost on
  induction holes generalizing t with
  | nil => exact ⟨[], t, rfl⟩
  | cons hole outer ih =>
    cases hole with
    | item before =>
      obtain ⟨more, t', h⟩ := ih (.array (before ++ [t]))
      exact ⟨.endArray :: more, t', h⟩
    | member before name =>
      obtain ⟨more, t', h⟩ := ih (.object (before ++ [(name, t)]))
      exact ⟨.endObject :: more, t', h⟩

/-- Every draft of a tree that is not whole can be completed. -/
theorem exists_more (d : JsonDraft) (h : ∀ t, d ≠ done t) : ∃ more t, more ≠ [] ∧ d.run more = some (done t) := by
  have hclose (event : Event) (holes : List JsonHole) (t : JsonTree) (hstep : d.step event = some (fill holes t)) :
      ∃ more t, more ≠ [] ∧ d.run more = some (done t) := by
    obtain ⟨more, t', hmore⟩ := exists_more_fill holes t
    exact ⟨event :: more, t', List.cons_ne_nil _ _, by rw [run_cons, hstep]; exact hmore⟩
  cases d with
  | fresh => exact ⟨[.null], .leaf .null, List.cons_ne_nil _ _, rfl⟩
  | done t => exact absurd rfl (h t)
  | inArray items outer => exact hclose .endArray outer (.array items) rfl
  | inObject members outer => exact hclose .endObject outer (.object members) rfl
  | named members name outer =>
    exact hclose .null (.member members name :: outer) (.leaf .null) rfl

/-! ### Runs of writers -/

theorem step_writer_of_step {d d' : JsonDraft} {event : Event} (h : d.step event = some d') :
    Event.step d.writer event = (none, d'.writer) := by
  have hwrite := follows_write d event
  rw [h] at hwrite
  rw [Event.step, show event.write d.writer = .ok () d'.writer from hwrite]

theorem step_writer_of_step_eq_none {d : JsonDraft} {event : Event} (h : d.step event = none) :
    ∃ e w, Event.step d.writer event = (some e, w) := by
  have hwrite := follows_write d event
  rw [h] at hwrite
  obtain ⟨e, w, hw⟩ := hwrite
  exact ⟨e, w, by rw [Event.step, show event.write d.writer = .error e w from hw]⟩

/-- What has a place in a draft is taken by its writer. -/
theorem results_of_run {d d' : JsonDraft} {events : List Event} (h : d.run events = some d') :
    (∀ result ∈ (Event.results d.writer events).1, result = none) ∧
      (Event.results d.writer events).2 = d'.writer := by
  induction events generalizing d with
  | nil =>
    obtain rfl := Option.some.inj h
    exact ⟨fun _ hresult => absurd hresult List.not_mem_nil, rfl⟩
  | cons event events ih =>
    rw [run_cons] at h
    obtain ⟨next, hstep, hrun⟩ := Option.bind_eq_some_iff.1 h
    obtain ⟨hnone, hlast⟩ := ih hrun
    rw [Event.results_cons, step_writer_of_step hstep]
    refine ⟨fun result hresult => ?_, hlast⟩
    rcases List.mem_cons.1 hresult with rfl | hresult
    · rfl
    · exact hnone result hresult

theorem exists_run_of_results {d : JsonDraft} {events : List Event}
    (h : ∀ result ∈ (Event.results d.writer events).1, result = none) : ∃ d', d.run events = some d' := by
  induction events generalizing d with
  | nil => exact ⟨d, rfl⟩
  | cons event events ih =>
    rw [Event.results_cons] at h
    cases hstep : d.step event with
    | none =>
      obtain ⟨e, w, hw⟩ := step_writer_of_step_eq_none hstep
      rw [hw] at h
      cases h (some e) (List.mem_cons_self ..)
    | some next =>
      rw [step_writer_of_step hstep] at h
      obtain ⟨d', hd'⟩ := ih fun result hresult => h result (List.mem_cons_of_mem _ hresult)
      exact ⟨d', by rw [run_cons, hstep]; exact hd'⟩

theorem writer_fresh : fresh.writer = {} := rfl

/-- A sequence of events writes a tree if and only if it leads to the whole tree. -/
theorem run_eq_done_iff {events : List Event} {t : JsonTree} :
    fresh.run events = some (done t) ↔ t.WrittenBy events := by
  constructor
  · intro h
    exact (events_of_run h).symm
  · intro h
    rw [← run_flatMap_parts, show events.flatMap Event.parts = t.events from h, run_events]
    rfl

end JsonDraft

/-! ### Trees and nothing else -/

namespace JsonTree

mutual

theorem parts_events (t : JsonTree) : t.events.flatMap Event.parts = t.events := by
  cases t with
  | leaf l => simp [events, Event.parts_event]
  | array items => simp [events, parts_eventsOfItems items, Event.parts]
  | object members => simp [events, parts_eventsOfMembers members, Event.parts]

theorem parts_eventsOfItems (items : List JsonTree) :
    (eventsOfItems items).flatMap Event.parts = eventsOfItems items := by
  cases items with
  | nil => rfl
  | cons t ts => simp [eventsOfItems, parts_events t, parts_eventsOfItems ts]

theorem parts_eventsOfMembers (members : List (String × JsonTree)) :
    (eventsOfMembers members).flatMap Event.parts = eventsOfMembers members := by
  match members with
  | [] => rfl
  | (name, t) :: ms => simp [eventsOfMembers, parts_events t, parts_eventsOfMembers ms, Event.parts]

end

theorem writtenBy_events (t : JsonTree) : t.WrittenBy t.events := t.parts_events

/-- No sequence of events writes two trees. -/
theorem WrittenBy.unique {t t' : JsonTree} {events : List Event} (h : t.WrittenBy events)
    (h' : t'.WrittenBy events) : t = t' := by
  have hrun := JsonDraft.run_eq_done_iff.2 h
  rw [JsonDraft.run_eq_done_iff.2 h'] at hrun
  exact (JsonDraft.done.inj (Option.some.inj hrun)).symm

end JsonTree

namespace JsonWriter

/-- A fresh writer takes all events of every tree, is complete after them and then holds the compact text of the
tree.  And events of which none was refused leave it complete if and only if they write exactly one tree; if they
do not, they are the beginning of events that write one, and the text cannot be taken. -/
theorem takes_exactly_trees :
    (∀ (t : JsonTree) (events : List Event), t.WrittenBy events →
      (∀ result ∈ (Event.results {} events).1, result = none) ∧
        (Event.results {} events).2.isComplete ∧
        (Event.results {} events).2.finish = .ok (String.ofList t.compact)) ∧
    ∀ events : List Event, (∀ result ∈ (Event.results {} events).1, result = none) →
      ((Event.results {} events).2.isComplete ↔ ∃! t : JsonTree, t.WrittenBy events) ∧
        (¬(Event.results {} events).2.isComplete →
          (∃ (t : JsonTree) (more : List Event), more ≠ [] ∧ t.WrittenBy (events ++ more)) ∧
            (Event.results {} events).2.finish = .error (.writerState .incomplete)) := by
  rw [← JsonDraft.writer_fresh]
  constructor
  · intro t events ht
    obtain ⟨hnone, hlast⟩ := JsonDraft.results_of_run (JsonDraft.run_eq_done_iff.2 ht)
    have hcomplete : (JsonDraft.done t).writer.isComplete := (JsonDraft.isComplete_writer _).2 ⟨t, rfl⟩
    rw [hlast]
    refine ⟨hnone, hcomplete, ?_⟩
    rw [finish, if_pos hcomplete]
    rfl
  · intro events hnone
    obtain ⟨d, hd⟩ := JsonDraft.exists_run_of_results hnone
    obtain ⟨-, hlast⟩ := JsonDraft.results_of_run hd
    rw [hlast]
    refine ⟨?_, fun hopen => ⟨?_, ?_⟩⟩
    · rw [JsonDraft.isComplete_writer]
      constructor
      · rintro ⟨t, rfl⟩
        have ht := JsonDraft.run_eq_done_iff.1 hd
        exact ⟨t, ht, fun t' ht' => ht'.unique ht⟩
      · rintro ⟨t, ht, -⟩
        rw [JsonDraft.run_eq_done_iff.2 ht] at hd
        exact ⟨t, (Option.some.inj hd).symm⟩
    · have hnot : ∀ t, d ≠ .done t := fun t ht => hopen ((JsonDraft.isComplete_writer d).2 ⟨t, ht⟩)
      obtain ⟨more, t, hne, hmore⟩ := d.exists_more hnot
      refine ⟨t, more, hne, JsonDraft.run_eq_done_iff.1 ?_⟩
      rw [JsonDraft.run_append, hd]
      exact hmore
    · rw [finish, if_neg hopen]

end JsonWriter

end PropertyGraph
