/-
Module: Intake.Schedule.Scheduler
Purpose: The interval scheduler: targets with their backoff, and buckets of the seconds they are due in.
Main exports: Schedule.Error, Schedule.Scheduler, Schedule.Due, and the operations register, unregister,
  scheduleNext, drain, grow, reset, settle, wakeDelay, clear

Due times are cut to whole seconds, so that targets due within one second share a bucket and wake the
loop once.  The buckets are kept in ascending order, each with its targets in the order in which they
were scheduled.
-/
import Intake.Table
import Intake.Time.Instant
import Intake.Schedule.Entry

namespace Intake

namespace Schedule

/-- Why the scheduler refused an operation. -/
inductive Error where
  | duplicateKey (key : String)
  | unknownKey (key : String)
  deriving Repr, DecidableEq

def Error.message : Error → String
  | .duplicateKey key => "Schedule key already registered: " ++ key
  | .unknownKey key => "Unknown schedule key: " ++ key

/-- Targets by the second they are due in. -/
abbrev Buckets := List (Int × List String)

namespace Buckets

/-- A target added at the end of the bucket of a second, which is created where it is missing. -/
def push (second : Int) (key : String) : Buckets → Buckets
  | [] => [(second, [key])]
  | (s, keys) :: rest =>
    if s = second then (s, keys ++ [key]) :: rest
    else if second < s then (second, [key]) :: (s, keys) :: rest
    else (s, keys) :: push second key rest

/-- A target taken out of the bucket of a second; a bucket left empty goes with it. -/
def remove (second : Int) (key : String) : Buckets → Buckets
  | [] => []
  | (s, keys) :: rest =>
    if s = second then
      match keys.filter (· != key) with
      | [] => rest
      | kept => (s, kept) :: rest
    else (s, keys) :: remove second key rest

/-- The targets of every bucket at or before a second, in order. -/
def dueBy (second : Int) (buckets : Buckets) : List String :=
  (buckets.takeWhile (·.1 ≤ second)).flatMap Prod.snd

/-- The buckets after a second. -/
def after (second : Int) (buckets : Buckets) : Buckets := buckets.dropWhile (·.1 ≤ second)

end Buckets

/-- The state of the scheduler. -/
structure Scheduler (δ : Type u) where
  entries : Table (Entry δ)
  buckets : Buckets
  deriving Repr, DecidableEq

/-- A target handed out by a drain, with the interval that led to it. -/
structure Due (δ : Type u) where
  key : String
  descriptor : δ
  interval : Duration
  attempts : Nat
  deriving Repr, DecidableEq

/-- The second in which an interval from an instant ends: both are cut to milliseconds, added within
64 bits, and cut to seconds. -/
def triggerSecond (start : Instant) (interval : Duration) : Int :=
  let millis : Int := min (interval.wholeMillis : Int) greatestSigned64
  (clampSigned64 (start.millis + millis)).fdiv 1000

/-- The shortest delay that the loop is asked to sleep. -/
def leastWakeDelay : Duration := .ofMillis 1

/-- The time from `now` until a second begins, and at least the shortest delay; both ends are cut to
milliseconds. -/
def delayUntil (second : Int) (now : Instant) : Duration :=
  let millis := clampSigned64 (clampSigned64 (second * 1000) - now.millis)
  max (.ofMillis millis.toNat) leastWakeDelay

namespace Scheduler

variable {δ : Type u}

def empty : Scheduler δ := ⟨.empty, []⟩

instance : Inhabited (Scheduler δ) := ⟨empty⟩

def size (s : Scheduler δ) : Nat := s.entries.size

def bucketCount (s : Scheduler δ) : Nat := s.buckets.length

def entry? (s : Scheduler δ) (key : String) : Option (Entry δ) := s.entries.find? key

/-- Adds a target under a key that is still free. -/
def register (s : Scheduler δ) (key : String) (least greatest : Duration) (descriptor : δ) :
    Except Error (Scheduler δ) :=
  if s.entries.contains key then .error (.duplicateKey key)
  else .ok { s with entries := s.entries.put key (.create key least greatest descriptor) }

/-- Takes the key of an entry out of the bucket it waits in, if it waits in one. -/
def unlink (buckets : Buckets) (key : String) : Phase → Buckets
  | .scheduled second => buckets.remove second key
  | _ => buckets

/-- Removes a target, from its bucket too. -/
def unregister (s : Scheduler δ) (key : String) : Except Error (Scheduler δ) :=
  match s.entry? key with
  | none => .error (.unknownKey key)
  | some e => .ok ⟨s.entries.erase key, unlink s.buckets key e.phase⟩

/-- Puts a target into the bucket of the second in which its interval from `start` ends, and gives
that second.  A target that waits in a bucket already is moved. -/
def scheduleNext (s : Scheduler δ) (key : String) (start : Instant) :
    Except Error (Int × Scheduler δ) :=
  match s.entry? key with
  | none => .error (.unknownKey key)
  | some e =>
    let second := triggerSecond start e.current
    .ok (second,
      ⟨s.entries.put key { e with phase := .scheduled second },
        Buckets.push second key (unlink s.buckets key e.phase)⟩)

/-- Hands out one target, if it is still registered, and marks it as due. -/
def takeDue (entries : Table (Entry δ)) (key : String) : Option (Due δ) × Table (Entry δ) :=
  match entries.find? key with
  | none => (none, entries)
  | some e =>
    (some ⟨key, e.descriptor, e.current, e.attempts⟩, entries.put key { e with phase := .due })

/-- Hands out targets in turn. -/
def takeAllDue (entries : Table (Entry δ)) : List String → List (Due δ) × Table (Entry δ)
  | [] => ([], entries)
  | key :: rest =>
    let (first, entries) := takeDue entries key
    let (others, entries) := takeAllDue entries rest
    (first.toList ++ others, entries)

/-- Hands out every target whose second has begun, in the order of the seconds and of scheduling. -/
def drain (s : Scheduler δ) (now : Instant) : List (Due δ) × Scheduler δ :=
  let (due, entries) := takeAllDue s.entries (s.buckets.dueBy now.seconds)
  (due, ⟨entries, s.buckets.after now.seconds⟩)

/-- One backoff step for a target; gives its new interval. -/
def grow (s : Scheduler δ) (key : String) : Except Error (Duration × Scheduler δ) :=
  match s.entry? key with
  | none => .error (.unknownKey key)
  | some e => .ok (e.grow.current, { s with entries := s.entries.put key e.grow })

/-- Back to the least interval for a target. -/
def reset (s : Scheduler δ) (key : String) : Except Error (Scheduler δ) :=
  match s.entry? key with
  | none => .error (.unknownKey key)
  | some e => .ok { s with entries := s.entries.put key e.reset }

/-- Applies the outcome of one fire: back to the least interval if it was productive, one backoff step
otherwise.  Only a target that was handed out and not settled since is changed, and the answer says
whether it was; so each fire counts once. -/
def settle (s : Scheduler δ) (key : String) (productive : Bool) : Except Error (Bool × Scheduler δ) :=
  match s.entry? key with
  | none => .error (.unknownKey key)
  | some e =>
    if e.phase = .due then
      let adjusted := if productive then e.reset else e.grow
      .ok (true, { s with entries := s.entries.put key { adjusted with phase := .idle } })
    else .ok (false, s)

/-- The time until the first bucket begins, and at least a millisecond; none if nothing waits. -/
def wakeDelay (s : Scheduler δ) (now : Instant) : Option Duration :=
  s.buckets.head?.map fun bucket => delayUntil bucket.1 now

def clear (_ : Scheduler δ) : Scheduler δ := empty

def current? (s : Scheduler δ) (key : String) : Option Duration := (s.entry? key).map Entry.current

end Scheduler

/-- The operations that change a scheduler. -/
inductive Operation (δ : Type u) where
  | register (key : String) (least greatest : Duration) (descriptor : δ)
  | unregister (key : String)
  | scheduleNext (key : String) (start : Instant)
  | drain (now : Instant)
  | grow (key : String)
  | reset (key : String)
  | settle (key : String) (productive : Bool)
  | clear
  deriving Repr, DecidableEq

/-- What an operation answers. -/
inductive Answer (δ : Type u) where
  | done
  | refused (cause : Error)
  | trigger (second : Int)
  | drained (due : List (Due δ))
  | interval (current : Duration)
  | settled (changed : Bool)
  deriving Repr, DecidableEq

/-- The state and the answer after an operation; a refused operation changes nothing. -/
def Scheduler.apply {δ : Type u} (s : Scheduler δ) : Operation δ → Answer δ × Scheduler δ
  | .register key least greatest descriptor =>
    match s.register key least greatest descriptor with
    | .ok s' => (.done, s')
    | .error cause => (.refused cause, s)
  | .unregister key =>
    match s.unregister key with
    | .ok s' => (.done, s')
    | .error cause => (.refused cause, s)
  | .scheduleNext key start =>
    match s.scheduleNext key start with
    | .ok (second, s') => (.trigger second, s')
    | .error cause => (.refused cause, s)
  | .drain now =>
    let (due, s') := s.drain now
    (.drained due, s')
  | .grow key =>
    match s.grow key with
    | .ok (current, s') => (.interval current, s')
    | .error cause => (.refused cause, s)
  | .reset key =>
    match s.reset key with
    | .ok s' => (.done, s')
    | .error cause => (.refused cause, s)
  | .settle key productive =>
    match s.settle key productive with
    | .ok (changed, s') => (.settled changed, s')
    | .error cause => (.refused cause, s)
  | .clear => (.done, s.clear)

end Schedule

end Intake
