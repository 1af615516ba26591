/-
Module: Intake.Observe.Reports
Purpose: What has been reported about the health of the intake, and what each of the reports still says.
Main exports: Health.Report, Health.after, Health.latest?, Health.runningAfter, Health.lastItemAfter,
  Health.checkAfter?, Health.IsRecent, Health.AllGood, Health.itemsCheck?
-/
import Intake.Observe.Health

namespace Intake

namespace Health

/-- Something that is reported while the intake runs. -/
inductive Report where
  | receivers (running : Bool)
  | lastItem (time : Nat)
  | check (name : String) (state : Check)
  | noCheck (name : String)
  deriving Repr, DecidableEq

/-- The health after a report. -/
def take (h : Health) : Report → Health
  | .receivers running => h.setReceiversRunning running
  | .lastItem time => h.setLastItem time
  | .check name state => h.addCheck name state
  | .noCheck name => h.removeCheck name

/-- The health after reports in turn. -/
def after (h : Health) (reports : List Report) : Health := reports.foldl take h

/-! ### What still holds

A report holds until the next one on the same matter, so what holds is found by looking back from the end. -/

/-- What the latest of those reports says that say something about a matter. -/
def latest? (about : Report → Option α) (reports : List Report) : Option α := reports.reverse.findSome? about

def Report.running? : Report → Option Bool
  | .receivers running => some running
  | _ => none

def Report.lastItem? : Report → Option Nat
  | .lastItem time => some time
  | _ => none

/-- What a report says about the check of a name: that there is one, or that there is none. -/
def Report.check? (name : String) : Report → Option (Option Check)
  | .check other state => if name = other then some (some state) else none
  | .noCheck other => if name = other then some none else none
  | _ => none

/-- Whether the receivers run; before any report they do not. -/
def runningAfter (reports : List Report) : Bool := (latest? Report.running? reports).getD false

/-- The time of the last item; zero stands for none. -/
def lastItemAfter (reports : List Report) : Nat := (latest? Report.lastItem? reports).getD 0

/-- The check that is registered under a name. -/
def checkAfter? (reports : List Report) (name : String) : Option Check :=
  (latest? (Report.check? name) reports).join

/-- Whether the last item is not older than items may become. -/
def IsRecent (reports : List Report) (now : Nat) : Prop :=
  lastItemAfter reports = 0 ∨ now ≤ lastItemAfter reports + staleAfter

/-- Every check that is registered has the good status. -/
def AllGood (reports : List Report) : Prop :=
  ∀ name check, checkAfter? reports name = some check → check.status = good

/-! ### Ages

The age of an item from the future is taken to be zero.  That it is never shown, so that every age in a message is
exact, is seen by comparing it with a subtraction that has no such result. -/

/-- The age of the last item by a subtraction that has no result below zero. -/
def exactAge? (h : Health) (now : Nat) : Option Nat :=
  if h.lastItem ≤ now then some (now - h.lastItem) else none

/-- The check of items with the exact age in its message; there is none where the subtraction has no result. -/
def itemsCheck? (h : Health) (now : Nat) : Option Check :=
  if h.lastItem = 0 then some ⟨good, some "No items processed yet", now⟩
  else if staleAfter < h.itemAge now then
    (h.exactAge? now).map fun age =>
      ⟨"stale", some ("No item activity for " ++ toString age ++ " seconds"), now⟩
  else some ⟨good, some "Recent item activity", now⟩

end Health

end Intake
