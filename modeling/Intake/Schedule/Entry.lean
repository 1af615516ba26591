/-
Module: Intake.Schedule.Entry
Purpose: One target of the interval scheduler: its bounds, its current interval and where it stands.
Main exports: Schedule.Phase, Schedule.Entry, Schedule.Entry.create, Schedule.Entry.grow,
  Schedule.Entry.reset, Schedule.Entry.settled
-/
import Intake.Schedule.Backoff

namespace Intake

namespace Schedule

/-- Where a target stands: in no bucket, in the bucket of a second, or handed out and not settled. -/
inductive Phase where
  | idle
  | scheduled (second : Int)
  | due
  deriving Repr, DecidableEq, Inhabited

/-- One independently scheduled target.  `descriptor` is what the scheduler hands back when the target
is due. -/
structure Entry (δ : Type u) where
  key : String
  least : Duration
  greatest : Duration
  current : Duration
  attempts : Nat
  descriptor : δ
  phase : Phase
  deriving Repr, DecidableEq

namespace Entry

variable {δ : Type u}

/-- A fresh target with its bounds put in order, at its least interval. -/
def create (key : String) (least greatest : Duration) (descriptor : δ) : Entry δ :=
  let bounds := Backoff.clampBounds least greatest
  { key, least := bounds.1, greatest := bounds.2, current := bounds.1, attempts := 0, descriptor,
    phase := .idle }

/-- The entry with another interval and attempt number. -/
def adjust (e : Entry δ) (step : Duration × Nat) : Entry δ :=
  { e with current := step.1, attempts := step.2 }

/-- One backoff step. -/
def grow (e : Entry δ) : Entry δ := e.adjust (Backoff.next e.least e.greatest e.attempts)

/-- Back to the least interval. -/
def reset (e : Entry δ) : Entry δ := e.adjust (e.least, 0)

/-- The entry once the outcome of a fire is applied to it. -/
def settled (e : Entry δ) (productive : Bool) : Entry δ :=
  { if productive then e.reset else e.grow with phase := .idle }

/-- The interval and the number of growth steps that led to it. -/
def backoff (e : Entry δ) : Duration × Nat := (e.current, e.attempts)

/-- The bounds that the interval stays within. -/
def bounds (e : Entry δ) : Duration × Duration := (e.least, e.greatest)

theorem backoff_fst (e : Entry δ) : e.backoff.1 = e.current := rfl

theorem backoff_snd (e : Entry δ) : e.backoff.2 = e.attempts := rfl

@[simp] theorem create_key (key : String) (least greatest : Duration) (descriptor : δ) :
    (create key least greatest descriptor).key = key := rfl

@[simp] theorem create_phase (key : String) (least greatest : Duration) (descriptor : δ) :
    (create key least greatest descriptor).phase = .idle := rfl

@[simp] theorem adjust_key (e : Entry δ) (step : Duration × Nat) : (e.adjust step).key = e.key := rfl

@[simp] theorem adjust_phase (e : Entry δ) (step : Duration × Nat) :
    (e.adjust step).phase = e.phase := rfl

@[simp] theorem adjust_bounds (e : Entry δ) (step : Duration × Nat) :
    (e.adjust step).bounds = e.bounds := rfl

@[simp] theorem adjust_backoff (e : Entry δ) (step : Duration × Nat) :
    (e.adjust step).backoff = step := rfl

@[simp] theorem create_bounds (key : String) (least greatest : Duration) (descriptor : δ) :
    (create key least greatest descriptor).bounds = Backoff.clampBounds least greatest := rfl

@[simp] theorem create_backoff (key : String) (least greatest : Duration) (descriptor : δ) :
    (create key least greatest descriptor).backoff =
      ((Backoff.clampBounds least greatest).1, 0) := rfl

@[simp] theorem bounds_phase (e : Entry δ) (phase : Phase) :
    bounds { e with phase } = e.bounds := rfl

@[simp] theorem backoff_phase (e : Entry δ) (phase : Phase) :
    backoff { e with phase } = e.backoff := rfl

@[simp] theorem grow_key (e : Entry δ) : e.grow.key = e.key := by
  rw [grow, adjust_key]

@[simp] theorem grow_phase (e : Entry δ) : e.grow.phase = e.phase := by
  rw [grow, adjust_phase]

@[simp] theorem reset_key (e : Entry δ) : e.reset.key = e.key := by
  rw [reset, adjust_key]

@[simp] theorem reset_phase (e : Entry δ) : e.reset.phase = e.phase := by
  rw [reset, adjust_phase]

@[simp] theorem grow_bounds (e : Entry δ) : e.grow.bounds = e.bounds := by
  rw [grow, adjust_bounds]

@[simp] theorem reset_bounds (e : Entry δ) : e.reset.bounds = e.bounds := by
  rw [reset, adjust_bounds]

theorem grow_backoff (e : Entry δ) :
    e.grow.backoff = Backoff.next e.bounds.1 e.bounds.2 e.backoff.2 := by
  rw [grow, adjust_backoff, bounds, backoff]

theorem reset_backoff (e : Entry δ) : e.reset.backoff = (e.bounds.1, 0) := by
  rw [reset, adjust_backoff, bounds]

@[simp] theorem settled_phase (e : Entry δ) (productive : Bool) :
    (e.settled productive).phase = .idle := rfl

@[simp] theorem settled_bounds (e : Entry δ) (productive : Bool) :
    (e.settled productive).bounds = e.bounds := by
  show (if productive then e.reset else e.grow).bounds = e.bounds
  split
  · exact e.reset_bounds
  · exact e.grow_bounds

theorem settled_backoff (e : Entry δ) (productive : Bool) :
    (e.settled productive).backoff = (if productive then e.reset else e.grow).backoff := rfl

end Entry

end Schedule

end Intake
