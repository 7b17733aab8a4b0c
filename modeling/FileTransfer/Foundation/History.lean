import FileTransfer.Foundation.HashTable

/-! # Histories of a table

A table that has been through a list of events holds under a key what the last event
about the key put there, and what it held before where there was no such event.
-/

namespace Foundation

namespace History

variable {Event Key Value : Type} [DecidableEq Key] (key : Event → Key)
  (stored : Event → Option Value)

def record (table : HashTable Key Value) (event : Event) : HashTable Key Value :=
  match stored event with
  | some value => table.set (key event) value
  | none => table.del (key event)

def replay (table : HashTable Key Value) (events : List Event) : HashTable Key Value :=
  events.foldl (record key stored) table

def lastAbout (about : Key) (events : List Event) : Option Event :=
  (events.filter fun event => key event = about).getLast?

theorem key_of_lastAbout {about : Key} {events : List Event} {event : Event}
    (last : lastAbout key about events = some event) : key event = about := by
  have member := List.mem_of_getLast? last
  simpa using (List.mem_filter.mp member).2

theorem get_record (table : HashTable Key Value) (event : Event) (about : Key) :
    (record key stored table event).get about =
      if key event = about then stored event else table.get about := by
  rw [record]
  cases what : stored event with
  | some value =>
      simp only
      rw [HashTable.get_set]
      simp only [eq_comm]
  | none =>
      simp only
      rw [HashTable.get_del]
      simp only [eq_comm]

theorem replay_cons (table : HashTable Key Value) (event : Event) (events : List Event) :
    replay key stored table (event :: events) =
      replay key stored (record key stored table event) events := rfl

theorem replay_append (table : HashTable Key Value) (earlier later : List Event) :
    replay key stored table (earlier ++ later) =
      replay key stored (replay key stored table earlier) later :=
  List.foldl_append

theorem lastAbout_cons (about : Key) (event : Event) (events : List Event) :
    lastAbout key about (event :: events) =
      (lastAbout key about events).or (if key event = about then some event else none) := by
  rw [lastAbout, lastAbout, List.filter_cons]
  by_cases isAbout : key event = about
  · simp [isAbout, List.getLast?_cons]
  · simp [isAbout]

/-- A later event about the key hides the ones before it. -/
theorem get_replay (table : HashTable Key Value) (events : List Event) (about : Key) :
    (replay key stored table events).get about =
      match lastAbout key about events with
      | some event => stored event
      | none => table.get about := by
  induction events generalizing table with
  | nil => rfl
  | cons event events induction =>
      rw [replay_cons, induction, get_record, lastAbout_cons]
      cases lastAbout key about events with
      | some last => rfl
      | none =>
          by_cases isAbout : key event = about
          · simp [isAbout]
          · simp [isAbout]

end History

end Foundation
