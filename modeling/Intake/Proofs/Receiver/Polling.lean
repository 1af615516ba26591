/-
Module: Intake.Proofs.Receiver.Polling
Purpose: What a change of the polling settings does, from every state that changes lead to.
Main exports: PollSettings.Kept, PollSettings.readNumbers_eq, PollSettings.spanOf_asked,
  PollSettings.Kept.configure_eq, PollSettings.polling_change_ends

A bound that a change does not name passes through a double and back.  It stays what it is since it was a double
once, or a few whole seconds.  The checks know no upper limit, so numbers of seconds from `2 ^ 64` on get as far
as the conversion to a span.
-/
import Intake.Proofs.Receiver.Rules
import Intake.Proofs.Time.Spans
import Intake.Proofs.Time.Steady
import Intake.Receiver.Changing

namespace Intake

open Settings (double? natural? span?)

namespace PollSettings

variable {current : PollSettings} {settings : Settings} {key : String}

/-! ### Checks

The current bounds are read back as seconds when they are not asked for.  They pass every check, so it is the
new text alone that decides. -/

/-- A number of seconds is accepted if it is finite and not negative. -/
theorem checkSeconds_eq_ite (key : String) (x : Binary64) : checkSeconds key x =
    if x.isFinite && Binary64.le .zero x then .ok ()
    else .error (.invalidSetting key "must be a non-negative number of seconds") := by
  split
  · next within =>
      have seconds := Binary64.isSeconds_iff.mpr within
      rw [checkSeconds, seconds.finite, seconds.nonneg]
      rfl
  · next outside =>
      rw [checkSeconds, if_pos]
      by_contra none
      rw [Bool.or_eq_true, not_or, Bool.not_eq_true, Bool.not_eq_true, Bool.not_eq_false'] at none
      exact outside (Binary64.isSeconds_iff.mp ⟨none.1, none.2⟩)

/-- Current seconds pass, so that the check is one of the text alone. -/
theorem checkSeconds_asked {x : Binary64} (passes : x.IsSeconds) :
    checkSeconds key (settings.asked key double? x) = settings.check [.seconds key] := by
  have own : checkSeconds key x = .ok () := by
    rw [checkSeconds_eq_ite, if_pos (Binary64.isSeconds_iff.mp passes)]
  cases found : settings.find? key with
  | none => rw [Settings.check_of_missing found, Settings.asked_of_missing found, own]
  | some text =>
      rw [Settings.check_of_found found, Settings.asked_of_found found]
      cases read : Settings.doubleOf text with
      | error e => simp only [double?, Rule.seconds, read, Except.toOption, Option.getD_none, own]
      | ok y =>
          simp only [double?, Rule.seconds, read, Except.toOption, Option.getD_some, checkSeconds_eq_ite]
          split
          · rfl
          · rfl

theorem readNumbers_eq (least : current.least.toSeconds.IsSeconds)
    (greatest : current.greatest.toSeconds.IsSeconds) : readNumbers current settings =
      (do
        settings.check rules
        return (settings.asked "min_interval_secs" double? current.least.toSeconds,
          settings.asked "max_interval_secs" double? current.greatest.toSeconds,
          settings.asked "idle_wait_ms" natural? current.idleWait.shortMillis)) := by
  simp only [readNumbers, rules, Settings.check_cons, Settings.double_eq, Settings.natural_eq, bind_assoc,
    pure_bind, checkSeconds_asked least, checkSeconds_asked greatest]

/-! ### Numbers and spans

A number that passes is seconds, but it may be too many of them for a span of time. -/

theorem isSeconds_of_found {text : String} (found : settings.find? key = some text)
    (read : settings.objection? (.double key) = none) (passes : settings.objection? (.seconds key) = none) :
    ∃ x, double? text = some x ∧ x.IsSeconds := by
  have number := Settings.objection?_of_found found read
  have seconds := Settings.objection?_of_found found passes
  simp only [Rule.double, Rule.readable, Rule.seconds, double?] at number seconds ⊢
  cases done : Settings.doubleOf text with
  | error e => simp [done] at number
  | ok x =>
      refine ⟨x, rfl, ?_⟩
      rw [done] at seconds
      by_contra outside
      rw [Binary64.isSeconds_iff] at outside
      simp [outside] at seconds

/-- A bound that nothing objects to is a span unless it is asked to be too long. -/
theorem spanOf_asked {d : Duration} (steady : d.IsSteady) (read : settings.objection? (.double key) = none)
    (passes : settings.objection? (.seconds key) = none) :
    Duration.ofSeconds? (settings.asked key double? d.toSeconds) =
      if settings.isBeyond key then none else some (settings.asked key span? d) := by
  cases found : settings.find? key with
  | none =>
      have short : settings.isBeyond key = false := by
        rw [Settings.isBeyond, found]
        rfl
      rw [short, Settings.asked_of_missing found, Settings.asked_of_missing found]
      exact steady
  | some text =>
      obtain ⟨x, number, seconds⟩ := isSeconds_of_found found read passes
      have beyond : settings.isBeyond key = Binary64.le (.ofNat Duration.secondsLimit) x := by
        rw [Settings.isBeyond, found, Option.bind_some, number, Option.any_some]
      have span : span? text = Duration.ofSeconds? x := by
        rw [span?, number, Option.bind_some]
      rw [beyond, Settings.asked_of_found found, Settings.asked_of_found found, number, span, Option.getD_some]
      split
      · next long => exact (Duration.ofSeconds?_eq_none_iff seconds).mpr long
      · next short =>
          have some : Duration.ofSeconds? x ≠ none := fun none =>
            short ((Duration.ofSeconds?_eq_none_iff seconds).mp none)
          obtain ⟨d, own⟩ := Option.ne_none_iff_exists'.mp some
          rw [own, Option.getD_some]

/-! ### States

A receiver may have been changed before, by changes that succeeded or stopped halfway.  What all of these
changes keep is enough to tell how the next one ends. -/

/-- The states that changes lead to: numbers survive being read back from them, and the wait is at least a
millisecond. -/
structure Kept (current : PollSettings) : Prop where
  least : current.least.IsSteady
  greatest : current.greatest.IsSteady
  idleWait : current.idleWait.IsMillis
  waits : 1 ≤ current.idleWait.shortMillis

/-- The standard settings are kept. -/
theorem kept_standard : standard.Kept where
  least := Duration.isSteady_of_fine (d := .ofSecs 5) (by decide)
  greatest := Duration.isSteady_of_fine (d := .ofSecs 300) (by decide)
  idleWait := Duration.isMillis_ofMillis (by decide)
  waits := by decide

theorem isDouble_of_double? {text : String} {x : Binary64} (done : double? text = some x) : x.IsDouble := by
  simp only [double?, Except.toOption] at done
  split at done
  · next read =>
      cases done
      exact Binary64.isDouble_read read
  · cases done

/-- A bound that is read from a text was a double. -/
theorem isSteady_asked {d : Duration} (steady : d.IsSteady) : (settings.asked key span? d).IsSteady := by
  refine Settings.asked_of_forall steady fun text own _ span => ?_
  obtain ⟨x, number, same⟩ := Option.bind_eq_some_iff.mp span
  exact Duration.isSteady_of_ofSeconds? (isDouble_of_double? number) same

/-- The wait that is asked for is the one that is stored, and at least a millisecond. -/
theorem Kept.idleWait_asked (kept : current.Kept) (settings : Settings) :
    Duration.ofMillis (max (settings.asked "idle_wait_ms" natural? current.idleWait.shortMillis) 1) =
      (current.updated settings).idleWait := by
  refine Settings.asked_map (f := fun n => Duration.ofMillis (max n 1)) ?_
  rw [Nat.max_eq_left kept.waits]
  exact kept.idleWait

/-- A change that succeeds leads to such a state. -/
theorem Kept.updated (kept : current.Kept) (settings : Settings) : (current.updated settings).Kept := by
  have idle := kept.idleWait_asked settings
  have most : settings.asked "idle_wait_ms" natural? current.idleWait.shortMillis ≤ max64 :=
    Settings.asked_of_forall (p := (· ≤ max64)) current.idleWait.shortMillis_le fun _ _ _ => Settings.natural?_le
  have fits : max (settings.asked "idle_wait_ms" natural? current.idleWait.shortMillis) 1 ≤ max64 :=
    Nat.max_le.mpr ⟨most, by decide⟩
  refine ⟨isSteady_asked kept.least, isSteady_asked kept.greatest, ?_, ?_⟩
  · rw [← idle]
    exact Duration.isMillis_ofMillis fits
  · rw [← idle, Duration.shortMillis_ofMillis fits]
    exact Nat.le_max_right _ 1

theorem Kept.waits_milli (kept : current.Kept) : .ofMillis 1 ≤ current.idleWait := by
  have some := kept.waits
  rw [← kept.idleWait]
  exact Nat.mul_le_mul_right Duration.nanosPerMilli some

/-! ### Changes

A change is refused by the first rule that objects, or fails at the first bound that is no span, or succeeds.
-/

/-- How one change ends, and what it stores before it ends. -/
theorem Kept.configure_eq (kept : current.Kept) (settings : Settings) : current.configure settings =
    match settings.firstObjection? rules with
    | some (key, reason) => (current, .error (.refused (.invalidSetting key reason)))
    | none =>
      if settings.isBeyond "min_interval_secs" then (current, .error .outOfRange)
      else if settings.isBeyond "max_interval_secs" then
        ({ current with least := (current.updated settings).least }, .error .outOfRange)
      else (current.updated settings, .ok ()) := by
  rw [configure, readNumbers_eq (Duration.isSeconds_of_ofSeconds? kept.least)
    (Duration.isSeconds_of_ofSeconds? kept.greatest), Settings.check]
  cases first : settings.firstObjection? rules with
  | some o => rfl
  | none =>
      have passes (rule : Rule) (member : rule ∈ rules) : settings.objection? rule = none :=
        Settings.objection?_of_firstObjection? first member
      have least := spanOf_asked kept.least (passes (.double "min_interval_secs") (by simp [rules]))
        (passes (.seconds "min_interval_secs") (by simp [rules]))
      have greatest := spanOf_asked kept.greatest (passes (.double "max_interval_secs") (by simp [rules]))
        (passes (.seconds "max_interval_secs") (by simp [rules]))
      simp only [bind, Except.bind, pure, Except.pure, least, greatest, kept.idleWait_asked settings]
      cases settings.isBeyond "min_interval_secs" with
      | true => rfl
      | false =>
          cases settings.isBeyond "max_interval_secs" with
          | true => rfl
          | false => rfl

/-- Even a change that fails leads to such a state. -/
theorem Kept.configure (kept : current.Kept) (settings : Settings) : (current.configure settings).1.Kept := by
  rw [kept.configure_eq]
  have updated := kept.updated settings
  split
  · exact kept
  · split
    · exact kept
    · split
      · exact ⟨updated.least, kept.greatest, kept.idleWait, kept.waits⟩
      · exact updated

/-- So does any number of changes. -/
theorem kept_after (changes : List Settings) : (after changes).Kept := by
  refine List.foldlRecOn changes _ kept_standard fun current kept settings _ => ?_
  exact kept.configure settings

/-- How every change of the polling settings ends, whatever changes came before, failed ones among them.  A
change that no rule objects to is made as a whole if both bounds are below `2 ^ 64` seconds: bounds that it does
not name stay what they are to the nanosecond.  Otherwise it fails, and a least bound that is a span is changed
all the same. -/
theorem polling_change_ends (changes : List Settings) (settings : Settings) :
    let current := after changes
    .ofMillis 1 ≤ current.idleWait ∧ current.configure settings =
      match settings.firstObjection? rules with
      | some (key, reason) => (current, .error (.refused (.invalidSetting key reason)))
      | none =>
        if settings.isBeyond "min_interval_secs" then (current, .error .outOfRange)
        else if settings.isBeyond "max_interval_secs" then
          ({ current with least := (current.updated settings).least }, .error .outOfRange)
        else (current.updated settings, .ok ()) :=
  ⟨(kept_after changes).waits_milli, (kept_after changes).configure_eq settings⟩

/-- A least bound is stored before a greatest one that is no span of time. -/
theorem half_changed_by_long_bound :
    (after []).configure (.ofList [("min_interval_secs", "7"), ("max_interval_secs", "1e300")]) =
      (⟨.ofSecs 7, .ofSecs 300, .ofSecs 1⟩, .error .outOfRange) := by
  decide +kernel

end PollSettings

end Intake
