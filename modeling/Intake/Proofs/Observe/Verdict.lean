/-
Module: Intake.Proofs.Observe.Verdict
Purpose: The verdict on the health of the intake after any reports.
Main exports: Health.Follows, Health.follows_after, Health.find?_checks, Health.itemsCheck?_eq,
  Health.isHealthy_iff_added, Health.health_page_verdict

All checks stand in one table, the built-in ones first.  What is registered under the name of a built-in check hides
it, so that the verdict is no longer about the receivers or the items.
-/
import Mathlib.Data.String.Basic
import Mathlib.Data.List.Induction
import Intake.Observe.Reports
import Intake.Proofs.Table

namespace Intake

namespace Health

open Table

variable {h : Health} {reports : List Report} {now : Nat} {name : String}

/-! ### Reports

Of the reports on one thing only the last counts.  The health is followed through the reports, and shows at
each point what the last ones so far have said. -/

/-- One more report is the latest on what it is about. -/
@[simp] theorem latest?_concat (about : Report → Option α) (reports : List Report) (last : Report) :
    latest? about (reports ++ [last]) = (about last).or (latest? about reports) := by
  rw [latest?, List.reverse_concat, List.findSome?_cons]
  cases about last with
  | none => rfl
  | some said => rfl

/-- The health shows what the latest reports say. -/
structure Follows (h : Health) (reports : List Report) : Prop where
  running : h.receiversRunning = runningAfter reports
  lastItem : h.lastItem = lastItemAfter reports
  sorted : h.added.Sorted
  checks : ∀ name, h.added.find? name = checkAfter? reports name

/-- One more report is followed. -/
theorem Follows.take (f : Follows h reports) (last : Report) : Follows (h.take last) (reports ++ [last]) := by
  cases last with
  | receivers running =>
      exact ⟨by simp [Health.take, setReceiversRunning, runningAfter, Report.running?],
        f.lastItem.trans (by simp [lastItemAfter, Report.lastItem?]), f.sorted,
        fun name => (f.checks name).trans (by simp [checkAfter?, Report.check?])⟩
  | lastItem time =>
      exact ⟨f.running.trans (by simp [runningAfter, Report.running?]),
        by simp [Health.take, setLastItem, lastItemAfter, Report.lastItem?], f.sorted,
        fun name => (f.checks name).trans (by simp [checkAfter?, Report.check?])⟩
  | check other state =>
      refine ⟨f.running.trans (by simp [runningAfter, Report.running?]),
        f.lastItem.trans (by simp [lastItemAfter, Report.lastItem?]), f.sorted.put, fun name => ?_⟩
      show (h.added.put other state).find? name = _
      rw [find?_put, f.checks, checkAfter?, checkAfter?, latest?_concat, Report.check?]
      split <;> rfl
  | noCheck other =>
      refine ⟨f.running.trans (by simp [runningAfter, Report.running?]),
        f.lastItem.trans (by simp [lastItemAfter, Report.lastItem?]), f.sorted.erase, fun name => ?_⟩
      show (h.added.erase other).find? name = _
      rw [find?_erase, f.checks, checkAfter?, checkAfter?, latest?_concat, Report.check?]
      split <;> rfl

/-- Any number of them are. -/
theorem follows_after (intakeId : String) (reports : List Report) :
    Follows ((create intakeId).after reports) reports := by
  induction reports using List.reverseRecOn with
  | nil => exact ⟨rfl, rfl, sorted_empty, fun name => rfl⟩
  | append_singleton reports last ih =>
      rw [Health.after, List.foldl_append]
      exact ih.take last

/-! ### Checks

A page is good if all of its checks are.  The built-in ones are put first, and those that were added follow
under names of their own or replace a built-in one. -/

/-- The check that is there without any being added. -/
def builtIn? (h : Health) (now : Nat) (name : String) : Option Check :=
  if name = "item_processing" then some (h.itemsCheck now)
  else if name = "receivers" then some (h.receiversCheck now)
  else none

/-- An added check hides a built-in one of the same name. -/
theorem find?_checks (sorted : h.added.Sorted) (now : Nat) (name : String) :
    (h.checks now).find? name = (h.added.find? name).or (h.builtIn? now name) := by
  refine (Sorted.find?_foldl_put sorted _ name).trans ?_
  rw [find?_put, find?_put, find?_empty, builtIn?]

/-- Every check that is found under a name must be good. -/
theorem isHealthy_iff (h : Health) (now : Nat) :
    h.isHealthy now = true ↔ ∀ name check, (h.checks now).find? name = some check → check.status = good := by
  have all : (h.checks now).Sorted := Sorted.foldl_put (sorted_empty.put.put) h.added.entries
  rw [isHealthy, List.all_eq_true]
  constructor
  · intro every name check found
    exact eq_of_beq (every check (all.mem_values_iff.mpr ⟨name, found⟩))
  · intro every check member
    obtain ⟨name, found⟩ := all.mem_values_iff.mp member
    exact beq_iff_eq.mpr (every name check found)

/-- The check of the receivers is good while they run. -/
theorem receiversCheck_status_iff : (h.receiversCheck now).status = good ↔ h.receiversRunning = true := by
  rw [receiversCheck]
  split
  · next running => exact iff_of_true rfl running
  · next stopped => exact iff_of_false (show "unhealthy" ≠ good by decide) stopped

/-- The check of the items is good if there was none yet, or the last one is recent. -/
theorem itemsCheck_status_iff :
    (h.itemsCheck now).status = good ↔ h.lastItem = 0 ∨ now ≤ h.lastItem + staleAfter := by
  rw [itemsCheck, itemAge]
  split
  · next none => exact iff_of_true rfl (.inl none)
  · next some =>
      split
      · next old => exact iff_of_false (show "stale" ≠ good by decide) (by omega)
      · next new => exact iff_of_true rfl (by omega)

/-- The subtraction in the message stands behind the test that the item is old. -/
theorem itemsCheck?_eq (h : Health) (now : Nat) : h.itemsCheck? now = some (h.itemsCheck now) := by
  rw [itemsCheck?, itemsCheck]
  split
  · rfl
  · split
    · next old =>
        have past : h.lastItem ≤ now := by rw [itemAge] at old; omega
        rw [exactAge?, if_pos past, Option.map_some, itemAge]
    · rfl

/-- There are two built-in checks. -/
theorem builtIn?_eq_some_iff {check : Check} :
    h.builtIn? now name = some check ↔
      name = "item_processing" ∧ h.itemsCheck now = check ∨ name = "receivers" ∧ h.receiversCheck now = check := by
  rw [builtIn?]
  split
  · next same => simp [same]
  · next other => simp [other]

/-- What the built-in checks say does not matter where one of the same name is added. -/
theorem isHealthy_iff_added (sorted : h.added.Sorted) (now : Nat) :
    h.isHealthy now = true ↔
      (h.receiversRunning = true ∨ (h.added.find? "receivers").isSome) ∧
      ((h.lastItem = 0 ∨ now ≤ h.lastItem + staleAfter) ∨ (h.added.find? "item_processing").isSome) ∧
      ∀ name check, h.added.find? name = some check → check.status = good := by
  rw [isHealthy_iff, ← receiversCheck_status_iff, ← itemsCheck_status_iff]
  simp only [find?_checks sorted, Option.or_eq_some_iff, builtIn?_eq_some_iff]
  constructor
  · intro every
    -- A name that nothing was added under still has its built-in check.
    refine ⟨?_, ?_, fun name check added => every name check (.inl added)⟩
    · cases absent : h.added.find? "receivers" with
      | some check => exact .inr rfl
      | none => exact .inl (every _ _ (.inr ⟨absent, .inr ⟨rfl, rfl⟩⟩))
    · cases absent : h.added.find? "item_processing" with
      | some check => exact .inr rfl
      | none => exact .inl (every _ _ (.inr ⟨absent, .inl ⟨rfl, rfl⟩⟩))
  · rintro ⟨receivers, items, added⟩ name check (there | ⟨absent, ⟨rfl, rfl⟩ | ⟨rfl, rfl⟩⟩)
    · exact added name check there
    · rw [absent] at items
      exact items.resolve_right Bool.false_ne_true
    · rw [absent] at receivers
      exact receivers.resolve_right Bool.false_ne_true

/-! ### The page

The status of the page says whether all checks are good, and nothing else does. -/

/-- The page answers with the status that goes with the verdict. -/
theorem status_reply (h : Health) (m : Metrics) (now : Nat) {target : String} (origin : Option String)
    (asked : Page.ofTarget? target = some .health) :
    (h.reply m now "GET" target origin).status = if h.isHealthy now then 200 else 503 := by
  rw [reply, if_neg (fun preflight => absurd preflight.2 (by decide)), asked]
  rfl

/-- After any reports, the health page has status 200 exactly if the receivers run, the last item is recent and every
check that is added is good; but a check added under the name of a built-in one stands in for what that one says.
Otherwise it has status 503.  The age of the last item never goes below zero. -/
theorem health_page_verdict (intakeId : String) (reports : List Report) (m : Metrics) (now : Nat)
    (target : String) (origin : Option String) (asked : Page.ofTarget? target = some .health) :
    let h := (create intakeId).after reports
    let status := (h.reply m now "GET" target origin).status
    (status = 200 ∨ status = 503) ∧
    (status = 200 ↔
      (runningAfter reports = true ∨ (checkAfter? reports "receivers").isSome) ∧
      (IsRecent reports now ∨ (checkAfter? reports "item_processing").isSome) ∧ AllGood reports) ∧
    (checkAfter? reports "receivers" = none → checkAfter? reports "item_processing" = none →
      (status = 200 ↔ runningAfter reports = true ∧ IsRecent reports now ∧ AllGood reports)) ∧
    h.itemsCheck? now = some (h.itemsCheck now) := by
  intro h status
  have follows : Follows h reports := follows_after intakeId reports
  have verdict : status = if h.isHealthy now then 200 else 503 := status_reply h m now origin asked
  have either : status = 200 ∨ status = 503 := by
    rw [verdict]
    split
    · exact .inl rfl
    · exact .inr rfl
  have good_iff : status = 200 ↔ h.isHealthy now = true := by
    rw [verdict]
    split
    · next healthy => exact iff_of_true rfl healthy
    · next degraded => exact iff_of_false (by decide) degraded
  have iff_all : status = 200 ↔
      (runningAfter reports = true ∨ (checkAfter? reports "receivers").isSome) ∧
      (IsRecent reports now ∨ (checkAfter? reports "item_processing").isSome) ∧ AllGood reports := by
    rw [good_iff, isHealthy_iff_added follows.sorted, follows.running, follows.lastItem]
    simp only [follows.checks, IsRecent, AllGood]
  refine ⟨either, iff_all, fun receivers items => ?_, itemsCheck?_eq h now⟩
  rw [iff_all, receivers, items, Option.isSome_none]
  simp only [Bool.false_eq_true, or_false]

/-- The oldest item that is recent, and a bad check that has been removed. -/
theorem recovered_intake_is_healthy :
    Page.ofTarget? "/health/" = some .health ∧
    (((create "relay").after
      [.receivers true, .lastItem 5, .check "store" ⟨"full", none, 300⟩, .noCheck "store"]).reply
        (Metrics.fresh 0) 305 "GET" "/health/" none).status = 200 := by
  have asked : Page.ofTarget? "/health/" = some .health := by decide
  refine ⟨asked, ((health_page_verdict "relay" _ (Metrics.fresh 0) 305 "/health/" none asked).2.2.1 rfl rfl).mpr ?_⟩
  refine ⟨rfl, .inr (by decide), fun name check added => ?_⟩
  by_cases same : name = "store" <;>
    simp [checkAfter?, latest?, Report.check?, List.findSome?_cons, same] at added

/-- No receiver runs, and yet the page has status 200: an added check has the name of the built-in one. -/
theorem added_check_hides_stopped_receivers :
    let reports : List Report := [.check "receivers" ⟨good, some "fine", 0⟩]
    runningAfter reports = false ∧
    (((create "relay").after reports).reply (Metrics.fresh 0) 0 "GET" "/health" none).status = 200 := by
  decide

end Health

end Intake
