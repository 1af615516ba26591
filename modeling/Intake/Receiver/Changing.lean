/-
Module: Intake.Receiver.Changing
Purpose: Changes of settings in steps, and the settings that any number of changes lead to.
Main exports: Changing, Changing.after, HttpSettings.change, BatchSettings.change, PollSettings.after

A receiver reads all its settings before it stores the first of them.  The steps are kept apart here, so that
a failure in the middle of a change would leave the settings half changed.
-/
import Intake.Receiver.Settings

namespace Intake

/-- Work on the settings of a receiver.  What was stored before a failure stays stored. -/
abbrev Changing (σ : Type) := EStateM ReceiverError σ

namespace Changing

/-- What a reader makes of the current settings. -/
def read (reader : σ → Except ReceiverError α) : Changing σ α := do
  match reader (← get) with
  | .ok value => return value
  | .error cause => throw cause

/-- The settings that are left, whether the change was made or refused. -/
def left (change : Changing σ Unit) (current : σ) : σ :=
  match change.run current with
  | .ok _ next => next
  | .error _ next => next

/-- The settings after a number of changes. -/
def after (change : Settings → Changing σ Unit) (start : σ) (changes : List Settings) : σ :=
  changes.foldl (fun current settings => (change settings).left current) start

end Changing

open Changing (read)

namespace HttpSettings

def change (settings : Settings) : Changing HttpSettings Unit := do
  let bindAddress ← read fun current => readAddress settings current.bindAddress
  let maxAccepts ← read fun current => readMaxAccepts settings current.maxAccepts
  let submitPath ← read fun current => readSubmitPath settings current.submitPath
  let grace ← read fun current => settings.natural "shutdown_grace_ms" max64 current.grace.shortMillis
  modify ({ · with bindAddress })
  modify ({ · with maxAccepts })
  modify ({ · with submitPath })
  modify ({ · with grace := .ofMillis grace })

end HttpSettings

namespace BatchSettings

def change (settings : Settings) : Changing BatchSettings Unit := do
  let millis ← read fun current => settings.natural "polling_interval_ms" max64 current.interval.shortMillis
  if millis = 0 then
    throw (.invalidSetting "polling_interval_ms" "must be greater than zero")
  modify ({ · with interval := .ofMillis millis })

end BatchSettings

/-- The polling settings after a number of changes, those that failed among them. -/
def PollSettings.after (changes : List Settings) : PollSettings :=
  changes.foldl (fun current settings => (current.configure settings).1) standard

end Intake
