/-
Module: Intake.Proofs.Receiver.Changing
Purpose: The receivers of HTTP and of batches are changed as a whole or not at all.
Main exports: Changing.Atomic, Changing.Atomic.of_steps, HttpSettings.Sound, BatchSettings.Sound,
  receivers_change_atomically

Both read everything before they store anything, and no rule looks at the current settings: those of a receiver
that was only ever changed pass every check.
-/
import Intake.Proofs.Receiver.Rules
import Intake.Receiver.Changing

namespace Intake

open Settings (natural? millis?)

/-! ### Steps of changes

A change is made of steps that read settings and steps that store them.  Where all reading comes before the
storing, a refusal leaves the receiver as it was, and which refusal it is can be told from the rules. -/

namespace Changing

variable {reader : σ → Except ReceiverError α} {current start : σ}
  {configure : σ → Settings → Except ReceiverError σ} {change : Settings → Changing σ Unit}
  {rules : List Rule} {updated : σ → Settings → σ} {Sound : σ → Prop} {settings : Settings}

/-- Steps that make of the current settings what a result says: the next settings, or a refusal that leaves the
settings as they are. -/
def Makes (steps : Changing σ Unit) (current : σ) (result : Except ReceiverError σ) : Prop :=
  steps.run current =
    match result with
    | .ok next => .ok () next
    | .error cause => .error cause current

/-- Reading leaves the settings as they are. -/
theorem Makes.read {rest : α → Changing σ Unit} {result : α → Except ReceiverError σ}
    (makes : ∀ value, Makes (rest value) current (result value)) :
    Makes (Changing.read reader >>= rest) current (reader current >>= result) := by
  simp only [Makes, Changing.read, EStateM.run_bind, EStateM.run_get]
  cases reader current with
  | ok value => exact makes value
  | error cause => rfl

/-- The first rule that objects refuses a change and leaves the settings as they are; without an objection all
of the change is made. -/
def EndsByRules (change : Settings → Changing σ Unit) (rules : List Rule) (updated : σ → Settings → σ)
    (current : σ) (settings : Settings) : Prop :=
  (change settings).run current =
    match settings.firstObjection? rules with
    | some (key, reason) => .error (.invalidSetting key reason) current
    | none => .ok () (updated current settings)

/-- Where reading is checking by rules, a change ends as the rules say. -/
theorem Makes.endsByRules (makes : Makes (change settings) current (configure current settings))
    (checked : configure current settings =
      (do settings.check rules; return updated current settings)) :
    EndsByRules change rules updated current settings := by
  rw [EndsByRules, makes, checked, Settings.check]
  cases settings.firstObjection? rules with
  | some o => rfl
  | none => rfl

/-- Receivers that are changed as a whole or not at all, whatever changes came before.  Settings without a
rule have no effect, and the settings stay sound. -/
structure Atomic (start : σ) (configure : σ → Settings → Except ReceiverError σ)
    (change : Settings → Changing σ Unit) (rules : List Rule) (updated : σ → Settings → σ)
    (Sound : σ → Prop) : Prop where
  makes : ∀ current settings, Makes (change settings) current (configure current settings)
  ends : ∀ changes settings, EndsByRules change rules updated (after change start changes) settings
  unknown : ∀ changes settings other, settings.Agree other rules →
    (change settings).run (after change start changes) = (change other).run (after change start changes)
  sound : ∀ changes, Sound (after change start changes)

/-- What holds of one change from sound settings holds of any number of them. -/
theorem Atomic.of_steps (makes : ∀ current settings, Makes (change settings) current (configure current settings))
    (sound : Sound start)
    (checked : ∀ current settings, Sound current →
      configure current settings = (do settings.check rules; return updated current settings))
    (keeps : ∀ current settings, Sound current → settings.firstObjection? rules = none →
      Sound (updated current settings))
    (blind : ∀ current settings other, settings.Agree other rules →
      updated current settings = updated current other) :
    Atomic start configure change rules updated Sound := by
  have ends (current : σ) (own : Sound current) (settings : Settings) :
      EndsByRules change rules updated current settings :=
    (makes current settings).endsByRules (checked current settings own)
  have stays (changes : List Settings) : Sound (after change start changes) := by
    refine List.foldlRecOn changes _ sound fun current own settings _ => ?_
    have ended := ends current own settings
    rw [EndsByRules] at ended
    rw [left, ended]
    cases first : settings.firstObjection? rules with
    | some o => exact own
    | none => exact keeps current settings own first
  refine ⟨makes, fun changes settings => ends _ (stays changes) settings, ?_, stays⟩
  intro changes settings other agree
  have one := ends _ (stays changes) settings
  have two := ends _ (stays changes) other
  rw [EndsByRules] at one two
  rw [one, two, agree.firstObjection?_eq, blind _ settings other agree]

end Changing

/-! ### HTTP

Each setting of this receiver has a reader of its own, which answers as a rule does.  Together they read as
the list of rules says. -/

namespace HttpSettings

variable {current : HttpSettings} {settings other : Settings}

/-- A change does what reading its settings says. -/
theorem makes_change (current : HttpSettings) (settings : Settings) :
    Changing.Makes (change settings) current (current.configure settings) := by
  refine .read fun bindAddress => .read fun maxAccepts => .read fun submitPath => .read fun grace => ?_
  rfl

theorem readAddress_eq (settings : Settings) (current : String) : readAddress settings current =
    (do
      settings.check [.text "bind_address" Address.isSocketAddress "invalid socket address syntax"]
      return settings.asked "bind_address" some current) := by
  rw [← Settings.text_eq]
  rfl

theorem readSubmitPath_eq (settings : Settings) (current : String) : readSubmitPath settings current =
    (do
      settings.check [.text "submit_path" (·.toList.head? == some '/') "must start with '/'"]
      return settings.asked "submit_path" some current) := by
  rw [← Settings.text_eq, readSubmitPath]
  cases settings.find? "submit_path" with
  | none => rfl
  | some path =>
      by_cases rooted : path.toList.head? = some '/'
      · simp [rooted]
      · simp [rooted]

theorem readMaxAccepts_eq {accepts : Nat} (positive : 0 < accepts) : readMaxAccepts settings accepts =
    (do
      settings.check [.positive "max_concurrent_accepts" "must be at least 1"]
      return settings.asked "max_concurrent_accepts" natural? accepts) := by
  rw [← Settings.readPositive_eq _ _ positive, readMaxAccepts, Settings.readPositive]
  cases settings.natural "max_concurrent_accepts" max64 accepts with
  | error cause => rfl
  | ok n =>
      cases n with
      | zero => rfl
      | succ n => rfl

/-- Settings that can be served with, and whose grace comes back from its milliseconds. -/
structure Sound (current : HttpSettings) : Prop where
  bindAddress : Address.isSocketAddress current.bindAddress = true
  maxAccepts : 1 ≤ current.maxAccepts
  submitPath : current.submitPath.toList.head? = some '/'
  grace : current.grace.IsMillis

/-- The standard settings are sound. -/
theorem sound_standard : standard.Sound where
  bindAddress := by decide +kernel
  maxAccepts := by decide
  submitPath := by decide
  grace := Duration.isMillis_ofMillis (n := 5000) (by decide)

/-- From sound settings, a change is checked by the rules and by nothing else. -/
theorem Sound.configure_eq (sound : current.Sound) (settings : Settings) : current.configure settings =
    (do settings.check rules; return current.updated settings) := by
  have grace : Duration.ofMillis (settings.asked "shutdown_grace_ms" natural? current.grace.shortMillis) =
      settings.asked "shutdown_grace_ms" millis? current.grace := Settings.asked_map sound.grace
  simp only [configure, rules, Settings.check_cons, readAddress_eq, readMaxAccepts_eq sound.maxAccepts,
    readSubmitPath_eq, Settings.natural_eq, bind_assoc, pure_bind, grace, updated]

/-- A change that passes leads to sound settings. -/
theorem Sound.updated (sound : current.Sound) (passes : settings.firstObjection? rules = none) :
    (current.updated settings).Sound := by
  have each := List.findSome?_eq_none_iff.mp passes
  simp only [rules, List.forall_mem_cons] at each
  obtain ⟨address, accepts, path, -⟩ := each
  refine ⟨Settings.accepted_asked Address.isSocketAddress sound.bindAddress address,
    Settings.positive_asked sound.maxAccepts accepts, ?_, ?_⟩
  · have rooted := Settings.accepted_asked (·.toList.head? == some '/') (beq_iff_eq.mpr sound.submitPath) path
    exact beq_iff_eq.mp rooted
  · exact Settings.isMillis_asked sound.grace

/-- Every setting has a rule. -/
theorem updated_of_agree (current : HttpSettings) (agree : settings.Agree other rules) :
    current.updated settings = current.updated other := by
  simp only [Settings.Agree, rules, List.forall_mem_cons, Rule.text, Rule.positive, Rule.natural,
    Rule.readable] at agree
  obtain ⟨address, accepts, path, grace, -⟩ := agree
  simp only [updated, Settings.asked_congr address, Settings.asked_congr accepts, Settings.asked_congr path,
    Settings.asked_congr grace]

/-- This receiver is changed as a whole or not at all. -/
theorem atomic_change : Changing.Atomic standard configure change rules updated Sound :=
  .of_steps makes_change sound_standard (fun _ settings sound => sound.configure_eq settings)
    (fun _ _ sound passes => sound.updated passes) fun current _ _ agree => updated_of_agree current agree

end HttpSettings

/-! ### Batches

This receiver has a single setting, so a change of it is a single check. -/

namespace BatchSettings

variable {current : BatchSettings} {settings other : Settings}

theorem configure_eq_readPositive (settings : Settings) (current : BatchSettings) : current.configure settings =
    (do
      let millis ← settings.readPositive "polling_interval_ms" "must be greater than zero"
        current.interval.shortMillis
      return ⟨.ofMillis millis⟩) := by
  rw [configure, Settings.readPositive]
  cases settings.natural "polling_interval_ms" max64 current.interval.shortMillis with
  | error cause => rfl
  | ok millis =>
      cases millis with
      | zero => rfl
      | succ millis => rfl

/-- A change does what reading its setting says. -/
theorem makes_change (current : BatchSettings) (settings : Settings) :
    Changing.Makes (change settings) current (current.configure settings) := by
  rw [configure_eq_readPositive, Settings.readPositive, bind_assoc]
  refine .read fun millis => ?_
  cases millis with
  | zero => rfl
  | succ millis => rfl

/-- An interval that a receiver can sleep by, and that comes back from its milliseconds. -/
structure Sound (current : BatchSettings) : Prop where
  interval : current.interval.IsMillis
  positive : .zero < current.interval

/-- The standard setting is sound. -/
theorem sound_standard : standard.Sound where
  interval := Duration.isMillis_ofMillis (by decide)
  positive := by decide

theorem Sound.shortMillis_pos (sound : current.Sound) : 0 < current.interval.shortMillis := by
  refine Nat.pos_of_ne_zero fun none => ?_
  have zero := sound.positive
  rw [← sound.interval, none] at zero
  exact absurd zero (by decide)

theorem Sound.interval_asked (sound : current.Sound) (settings : Settings) :
    Duration.ofMillis (settings.asked "polling_interval_ms" natural? current.interval.shortMillis) =
      (current.updated settings).interval := Settings.asked_map sound.interval

/-- From a sound setting, a change is checked by the rules and by nothing else. -/
theorem Sound.configure_eq (sound : current.Sound) (settings : Settings) : current.configure settings =
    (do settings.check rules; return current.updated settings) := by
  rw [configure_eq_readPositive, Settings.readPositive_eq _ _ sound.shortMillis_pos]
  simp only [rules, bind_assoc, pure_bind, sound.interval_asked]

/-- A change that passes leads to a sound setting. -/
theorem Sound.updated (sound : current.Sound) (passes : settings.firstObjection? rules = none) :
    (current.updated settings).Sound := by
  have each := List.findSome?_eq_none_iff.mp passes
  simp only [rules, List.forall_mem_cons] at each
  refine ⟨Settings.isMillis_asked sound.interval, ?_⟩
  rw [← sound.interval_asked]
  exact Duration.ofMillis_pos (Settings.positive_asked sound.shortMillis_pos each.1)

theorem updated_of_agree (current : BatchSettings) (agree : settings.Agree other rules) :
    current.updated settings = current.updated other := by
  simp only [Settings.Agree, rules, List.forall_mem_cons, Rule.positive] at agree
  simp only [updated, Settings.asked_congr agree.1]

/-- This receiver is changed as a whole or not at all. -/
theorem atomic_change : Changing.Atomic standard configure change rules updated Sound :=
  .of_steps makes_change sound_standard (fun _ settings sound => sound.configure_eq settings)
    (fun _ _ sound passes => sound.updated passes) fun current _ _ agree => updated_of_agree current agree

end BatchSettings

/-- The receivers of HTTP and of batches. -/
theorem receivers_change_atomically :
    Changing.Atomic HttpSettings.standard HttpSettings.configure HttpSettings.change HttpSettings.rules
        HttpSettings.updated HttpSettings.Sound ∧
      Changing.Atomic BatchSettings.standard BatchSettings.configure BatchSettings.change BatchSettings.rules
        BatchSettings.updated BatchSettings.Sound :=
  ⟨HttpSettings.atomic_change, BatchSettings.atomic_change⟩

end Intake
