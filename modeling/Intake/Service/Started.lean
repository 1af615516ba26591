/-
Module: Intake.Service.Started
Purpose: What a configuration asks of the receivers that are set up for it and started.
Main exports: Config.least?, Config.greatest?, Config.InSpans, Config.InCalendar, Config.Servable,
  Config.Assembled, Config.Started

Bounds are doubles in a configuration, spans of time in a receiver, and differences of dates when the targets of
the receiver are scheduled.  A bound that is a fine double need not be either of the others.
-/
import Intake.Schedule.Cutting
import Intake.Service.Assembly

namespace Intake

namespace Config

/-! ### Bounds

Which intervals a directory is to be polled at, by its own bounds and those for all. -/

/-- The least interval of a directory: as it says itself or else as for all, and at least a second. -/
def least? (c : Config) (p : Config.Pickup) : Option Duration :=
  (Duration.ofSeconds? (p.minSecs.getD c.polling.minSecs)).map (max · (.ofSecs 1))

/-- The greatest interval of a directory: as it says itself or else as for all, and not below the least. -/
def greatest? (c : Config) (p : Config.Pickup) : Option Duration := do
  let least ← c.least? p
  let greatest ← Duration.ofSeconds? (p.maxSecs.getD c.polling.maxSecs)
  return max greatest least

/-- The numbers of seconds that have to become spans of time: the bounds for all directories, and those that
scheduled directories have of their own. -/
def bounds (c : Config) : List Binary64 :=
  [c.polling.minSecs, c.polling.maxSecs] ++
    (c.pickupsBy .scheduled).flatMap fun p => p.minSecs.toList ++ p.maxSecs.toList

/-- Whether they are all below `2 ^ 64` seconds. -/
def InSpans (c : Config) : Prop := ∀ x ∈ c.bounds, Binary64.lt x (.ofNat Duration.secondsLimit) = true

instance (c : Config) : Decidable c.InSpans := inferInstanceAs (Decidable (∀ x ∈ c.bounds, _))

/-- Whether the first interval of every scheduled directory, which is made to end now, begins in the calendar. -/
def InCalendar (c : Config) (now : Instant) : Prop :=
  ∀ p ∈ c.pickupsBy .scheduled, ∀ least ∈ c.least? p, (now.before least.wholeMillis).inCalendar

instance (c : Config) (now : Instant) : Decidable (c.InCalendar now) :=
  inferInstanceAs (Decidable (∀ p ∈ c.pickupsBy .scheduled, _))

/-! ### Receivers

What has to run once a configuration is started, part by part. -/

/-- Whether the HTTP receiver, where there is one, can listen at its address and route its path. -/
def Servable (c : Config) : Prop :=
  ∀ http ∈ c.http, Address.isSocketAddress http.bindAddress = true ∧ http.submitPath.toList.head? = some '/'

instance (c : Config) : Decidable c.Servable := inferInstanceAs (Decidable (∀ http ∈ c.http, _))

/-- The receivers that no start changes: for HTTP, and for each directory that is polled in batches. -/
structure Receives (c : Config) (a : Assembly) : Prop where
  http : a.http = c.http.map fun http =>
    { Http.Receiver.create "http" with
      settings :=
        ⟨http.bindAddress, http.maxConcurrentAccepts, http.submitPath, .ofMillis http.shutdownGraceMs⟩ }
  batches : a.batches = (c.pickupsBy .batch).map fun p =>
    (.create p.key p.directory, ⟨.ofMillis c.batch.pollingIntervalMs⟩)

/-- All receivers are set up, and every scheduled directory waits to be taken. -/
structure Assembled (c : Config) (a : Assembly) : Prop extends c.Receives a where
  idleWait : a.scheduled.settings.idleWait = .ofMillis (max c.polling.idleWaitMs 1)
  pending : a.scheduled.pending.map (·.key) = (c.pickupsBy .scheduled).map (·.key)
  scheduler : a.scheduled.scheduler = .empty

/-- A directory is registered within its bounds, at the least interval, and put down for a second. -/
def IsScheduled (c : Config) (s : Schedule.Scheduler Intake.Pickup) (second : Int) (p : Config.Pickup) : Prop :=
  ∃ least greatest, c.least? p = some least ∧ c.greatest? p = some greatest ∧
    s.entry? p.key =
      some ⟨p.key, least, greatest, least, 0, .create p.key p.directory, .scheduled second⟩

/-- All receivers run: every scheduled directory is registered once and due in the current second, and nothing
else is. -/
structure Started (c : Config) (now : Instant) (a : Assembly) : Prop extends c.Receives a where
  pending : a.scheduled.pending = []
  scheduled : ∀ p ∈ c.pickupsBy .scheduled, c.IsScheduled a.scheduled.scheduler now.seconds p
  size : a.scheduled.scheduler.size = (c.pickupsBy .scheduled).length
  buckets : a.scheduled.scheduler.buckets =
    if c.pickupsBy .scheduled = [] then [] else [(now.seconds, (c.pickupsBy .scheduled).map (·.key))]

end Config

end Intake
