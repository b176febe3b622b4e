import LoadReplay.Replay.Basic

/-!
# Warnings

The warnings in a log, and those that dispatches leave when they end. The progress of a replay and
a panic are logged on other levels, so that all warnings of a replay that is not cancelled come from
its dispatches.
-/

namespace LoadReplay

/-- The warnings in a log. -/
def warnings (log : List LogEntry) : List LogEntry :=
  log.filter fun entry => decide (entry.level = .warn)

theorem warnings_append (xs ys : List LogEntry) :
    warnings (xs ++ ys) = warnings xs ++ warnings ys :=
  List.filter_append ..

theorem warnings_cons_of_ne {entry : LogEntry} (h : entry.level ≠ .warn) (log : List LogEntry) :
    warnings (entry :: log) = warnings log :=
  List.filter_cons_of_neg (by simpa using h)

theorem warnings_flatMap {α : Type} (xs : List α) (f : α → List LogEntry) :
    warnings (xs.flatMap f) = xs.flatMap fun x => warnings (f x) :=
  List.filter_flatMap ..

theorem warnings_progressLog (dispatched total : Nat) :
    warnings (progressLog dispatched total) = [] := by
  unfold progressLog
  split <;> rfl

theorem warnings_panicked {α : Type} (xs : List α) :
    warnings (xs.map fun _ => .panicked) = [] := by
  rw [List.map_const']
  exact List.filter_replicate_of_neg nofun

namespace Dispatcher

/-- The warnings that calls leave when they end, in the order of the calls. -/
def warningsOf (dispatcher : Dispatcher) (calls : List Call) : List LogEntry :=
  calls.flatMap fun call => warnings (dispatcher call.departure).log

theorem warningsOf_cons (dispatcher : Dispatcher) (call : Call) (calls : List Call) :
    dispatcher.warningsOf (call :: calls) =
      warnings (dispatcher call.departure).log ++ dispatcher.warningsOf calls :=
  List.flatMap_cons

theorem warningsOf_append (dispatcher : Dispatcher) (xs ys : List Call) :
    dispatcher.warningsOf (xs ++ ys) = dispatcher.warningsOf xs ++ dispatcher.warningsOf ys :=
  List.flatMap_append

theorem warningsOf_singleton (dispatcher : Dispatcher) (call : Call) :
    dispatcher.warningsOf [call] = warnings (dispatcher call.departure).log :=
  List.append_nil _

end Dispatcher

end LoadReplay
