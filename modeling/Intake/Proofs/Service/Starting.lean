/-
Module: Intake.Proofs.Service.Starting
Purpose: Which configurations that were read from a text can be started.
Main exports: Config.inSpans_iff, Config.assembleScheduled_eq, Config.assemble_eq,
  Config.started_iff_inCalendar, Config.starts_iff_in_range

The checks let every finite number of seconds pass that is not negative.  What is set up from it then depends on
two limits that nothing checks: spans of time end before `2 ^ 64` seconds, and the calendar begins about 262,000
years before 1970.
-/
import Intake.Proofs.Config.Settings
import Intake.Proofs.Scheduled.Registration
import Intake.Service.Started

namespace Intake

namespace Config

open Assembly (Failure)

variable {c : Config} {p : Config.Pickup} {now : Instant} {settings : PollSettings}

/-! ### Numbers of seconds as spans

A configuration holds its bounds as numbers of seconds.  Those from the limit on are no spans of time, and the
first of them stops the start. -/

/-- Whether the bounds that a directory has of its own are spans of time. -/
def Pickup.HasSpans (p : Config.Pickup) : Prop :=
  (∀ x ∈ p.minSecs, (Duration.ofSeconds? x).isSome = true) ∧
    ∀ x ∈ p.maxSecs, (Duration.ofSeconds? x).isSome = true

instance (p : Config.Pickup) : Decidable p.HasSpans := inferInstanceAs (Decidable (_ ∧ _))

/-- A valid configuration keeps to the limit of spans exactly if all its bounds are spans. -/
theorem inSpans_iff (valid : c.Valid) :
    c.InSpans ↔ (Duration.ofSeconds? c.polling.minSecs).isSome = true ∧
      (Duration.ofSeconds? c.polling.maxSecs).isSome = true ∧ ∀ p ∈ c.pickupsBy .scheduled, p.HasSpans := by
  have own (p : Config.Pickup) (member : p ∈ c.pickupsBy .scheduled) :
      (∀ x ∈ p.minSecs.toList ++ p.maxSecs.toList, Binary64.lt x (.ofNat Duration.secondsLimit) = true) ↔
        p.HasSpans := by
    obtain ⟨least, greatest⟩ := valid.own p (List.mem_of_mem_filter member)
    simp only [List.mem_append, Option.mem_toList, or_imp, forall_and]
    exact and_congr
      (forall₂_congr fun x given => (Duration.isSome_ofSeconds? (least x given)).symm)
      (forall₂_congr fun x given => (Duration.isSome_ofSeconds? (greatest x given)).symm)
  rw [Duration.isSome_ofSeconds? valid.least, Duration.isSome_ofSeconds? valid.greatest, InSpans, bounds,
    List.forall_mem_append, List.forall_mem_cons, List.forall_mem_singleton, and_assoc]
  refine and_congr_right fun _ => and_congr_right fun _ => ?_
  rw [List.forall_mem_flatMap]
  exact forall₂_congr own

/-- A bound of a directory, or else that for all. -/
theorem ofSeconds?_getD {x? : Option Binary64} {x : Binary64} {d : Duration}
    (own : ∀ y ∈ x?, (Duration.ofSeconds? y).isSome = true) (standard : Duration.ofSeconds? x = some d) :
    Duration.ofSeconds? (x?.getD x) = some ((x?.bind Duration.ofSeconds?).getD d) := by
  cases x? with
  | none => exact standard
  | some y =>
      obtain ⟨span, found⟩ := Option.isSome_iff_exists.mp (own y rfl)
      rw [Option.getD_some, Option.bind_some, found, Option.getD_some]

theorem span?_eq (x? : Option Binary64) :
    span? x? = if ∀ x ∈ x?, (Duration.ofSeconds? x).isSome = true then .ok (x?.bind Duration.ofSeconds?)
      else .error .outOfRange := by
  cases x? with
  | none => rfl
  | some x =>
      cases found : Duration.ofSeconds? x with
      | none => simp [span?, found]
      | some span => simp [span?, found]

/-! ### Setting up

All receivers are set up before any is started.  Each of them fails only for a bound that is no span. -/

/-- A scheduled directory as a target that waits to be taken. -/
def Pickup.registration (p : Config.Pickup) : Scheduled.Registration Intake.Pickup :=
  ⟨p.key, .create p.key p.directory, p.minSecs.bind Duration.ofSeconds?, p.maxSecs.bind Duration.ofSeconds?⟩

/-- A directory is added if its bounds are spans. -/
theorem addScheduled_eq (receiver : Scheduled.Receiver Intake.Pickup) (p : Config.Pickup) :
    addScheduled receiver p =
      if p.HasSpans then .ok (receiver.addTarget p.registration) else .error .outOfRange := by
  rw [addScheduled, span?_eq, span?_eq]
  by_cases least : ∀ x ∈ p.minSecs, (Duration.ofSeconds? x).isSome = true
  · by_cases greatest : ∀ x ∈ p.maxSecs, (Duration.ofSeconds? x).isSome = true
    · rw [if_pos least, if_pos greatest, if_pos ⟨least, greatest⟩]
      rfl
    · rw [if_pos least, if_neg greatest, if_neg fun spans : p.HasSpans => greatest spans.2]
      rfl
  · rw [if_neg least, if_neg fun spans : p.HasSpans => least spans.1]
    rfl

/-- Directories are added in their order; the first without a span stops this. -/
theorem foldlM_addScheduled (receiver : Scheduled.Receiver Intake.Pickup) (pickups : List Config.Pickup) :
    pickups.foldlM addScheduled receiver =
      if ∀ p ∈ pickups, p.HasSpans then
        .ok { receiver with pending := receiver.pending ++ pickups.map Pickup.registration }
      else .error .outOfRange := by
  induction pickups generalizing receiver with
  | nil =>
      rw [if_pos (by simp), List.map_nil, List.append_nil]
      rfl
  | cons p rest ih =>
      rw [List.foldlM_cons, addScheduled_eq]
      by_cases first : p.HasSpans
      · rw [if_pos first]
        show rest.foldlM addScheduled (receiver.addTarget p.registration) = _
        rw [ih]
        by_cases others : ∀ x ∈ rest, x.HasSpans
        · rw [if_pos others, if_pos (List.forall_mem_cons.mpr ⟨first, others⟩)]
          simp [Scheduled.Receiver.addTarget]
        · rw [if_neg others, if_neg fun all => others (List.forall_mem_cons.mp all).2]
      · rw [if_neg first, if_neg fun all => first (List.forall_mem_cons.mp all).1]
        rfl

/-- The polling settings that a configuration asks for. -/
structure Configures (c : Config) (settings : PollSettings) : Prop where
  least : Duration.ofSeconds? c.polling.minSecs = some settings.least
  greatest : Duration.ofSeconds? c.polling.maxSecs = some settings.greatest
  idleWait : settings.idleWait = .ofMillis (max c.polling.idleWaitMs 1)

/-- The polling settings arrive, or one of their bounds is no span. -/
theorem configure_pollSettings (valid : c.Valid) (fits : c.Fits) (current : PollSettings) :
    (∃ settings, c.Configures settings ∧ current.configure c.pollSettings = (settings, .ok ())) ∨
      ∃ settings, (¬ c.InSpans) ∧ current.configure c.pollSettings = (settings, .error .outOfRange) := by
  rw [inSpans_iff valid]
  simp only [PollSettings.configure, readNumbers_pollSettings valid fits]
  cases least : Duration.ofSeconds? c.polling.minSecs with
  | none => exact .inr ⟨_, by simp, rfl⟩
  | some l =>
      cases greatest : Duration.ofSeconds? c.polling.maxSecs with
      | none => exact .inr ⟨_, by simp, rfl⟩
      | some g => exact .inl ⟨_, ⟨least, greatest, rfl⟩, rfl⟩

/-- The scheduled receiver of a configuration, before it is started. -/
def scheduledReceiver (c : Config) (settings : PollSettings) : Scheduled.Receiver Intake.Pickup :=
  ⟨"pickup", settings, (c.pickupsBy .scheduled).map Pickup.registration, .empty⟩

/-- The scheduled receiver is set up exactly if all bounds are spans. -/
theorem assembleScheduled_eq (valid : c.Valid) (fits : c.Fits) :
    (c.InSpans → ∃ settings, c.Configures settings ∧
      c.assembleScheduled = .ok (c.scheduledReceiver settings)) ∧
    (¬ c.InSpans → c.assembleScheduled = .error .outOfRange) := by
  rcases configure_pollSettings valid fits .standard with
    ⟨settings, configures, done⟩ | ⟨settings, beyond, done⟩
  · simp only [assembleScheduled, done, foldlM_addScheduled]
    have spans : c.InSpans ↔ ∀ p ∈ c.pickupsBy .scheduled, p.HasSpans := by
      rw [inSpans_iff valid, configures.least, configures.greatest]
      simp
    rw [spans]
    exact ⟨fun all => ⟨settings, configures, if_pos all⟩, fun beyond => if_neg beyond⟩
  · exact ⟨fun spans => absurd spans beyond, fun _ => by simp only [assembleScheduled, done]⟩

/-- A directory that is polled in batches is always set up. -/
theorem assembleBatch_eq (valid : c.Valid) (fits : c.Fits) (p : Config.Pickup) :
    c.assembleBatch p = .ok (.create p.key p.directory, ⟨.ofMillis c.batch.pollingIntervalMs⟩) := by
  rw [assembleBatch, configure_batchSettings valid fits]

/-- So is the receiver of HTTP, at an address that can be bound. -/
theorem assembleHttp_eq (valid : c.Valid) (fits : c.Fits) (servable : c.Servable) :
    c.assembleHttp = .ok (c.http.map fun http =>
      { Http.Receiver.create "http" with
        settings :=
          ⟨http.bindAddress, http.maxConcurrentAccepts, http.submitPath, .ofMillis http.shutdownGraceMs⟩ }) := by
  cases served : c.http with
  | none => simp [assembleHttp, httpSettings?, served]
  | some http =>
      obtain ⟨bindable, rooted⟩ := servable http served
      simp [assembleHttp, httpSettings?, served, configure_httpSettings valid fits served bindable rooted]

/-- All receivers are set up exactly if all bounds are spans. -/
theorem assemble_eq (valid : c.Valid) (fits : c.Fits) (servable : c.Servable) :
    (c.InSpans → ∃ settings a, c.Configures settings ∧ c.assemble = .ok a ∧ c.Receives a ∧
      a.scheduled = c.scheduledReceiver settings) ∧
    (¬ c.InSpans → c.assemble = .error .outOfRange) := by
  obtain ⟨setUp, failed⟩ := assembleScheduled_eq valid fits
  have batches : (c.pickupsBy .batch).mapM c.assembleBatch =
      .ok ((c.pickupsBy .batch).map fun p =>
        (.create p.key p.directory, ⟨.ofMillis c.batch.pollingIntervalMs⟩)) := by
    rw [funext (assembleBatch_eq valid fits)]
    exact List.mapM_pure
  rw [assemble, assembleHttp_eq valid fits servable, batches]
  refine ⟨fun spans => ?_, fun beyond => ?_⟩
  · obtain ⟨settings, configures, done⟩ := setUp spans
    rw [done]
    exact ⟨settings, _, configures, rfl, ⟨rfl, rfl⟩, rfl⟩
  · rw [failed beyond]
    rfl

/-! ### Starting

Once all receivers are set up, the scheduled one takes its targets.  It gets through exactly if the calendar
holds the beginnings of their intervals. -/

section

variable (configures : c.Configures settings) (spans : p.HasSpans)

include configures spans

/-- What is registered has the bounds that the configuration gives to the directory. -/
theorem least?_eq : c.least? p = some (p.registration.fresh settings).current := by
  rw [least?, ofSeconds?_getD spans.1 configures.least, Option.map_some]
  rfl

theorem greatest?_eq : c.greatest? p = some (p.registration.fresh settings).greatest := by
  rw [greatest?, least?_eq configures spans, ofSeconds?_getD spans.2 configures.greatest]
  rfl

/-- A directory is put down for the current second exactly if the calendar holds the beginning of its interval. -/
theorem second?_eq_now_iff (since : 0 ≤ now.seconds) (ahead : now.seconds < Instant.calendarEnd) :
    p.registration.second? settings now = some now.seconds ↔
      ∀ least ∈ c.least? p, (now.before least.wholeMillis).inCalendar := by
  have known : now.inCalendar := ⟨le_trans (by decide) since, ahead⟩
  rw [Scheduled.Registration.second?, Scheduled.secondOf_eq_now_iff _ known, least?_eq configures spans]
  simp

/-- A target that is taken is registered as the configuration asks, apart from the second that it waits for. -/
theorem isScheduled_iff {s : Schedule.Scheduler Intake.Pickup} {second : Int}
    (found : s.entry? p.key = some (p.registration.entry settings second)) (other : Int) :
    c.IsScheduled s other p ↔ second = other := by
  constructor
  · rintro ⟨least, greatest, -, -, found'⟩
    rw [found] at found'
    have phase := congrArg Schedule.Entry.phase (Option.some.inj found')
    exact Schedule.Phase.scheduled.inj phase
  · rintro rfl
    exact ⟨_, _, least?_eq configures spans, greatest?_eq configures spans, found⟩

end

/-- The keys that the targets wait under are those of the directories. -/
theorem map_key_registration (pickups : List Config.Pickup) :
    (pickups.map Pickup.registration).map (·.key) = pickups.map (·.key) := by
  rw [List.map_map]
  rfl

section

variable (valid : c.Valid) (inSpans : c.InSpans) (configures : c.Configures settings)
  (since : 0 ≤ now.seconds) (ahead : now.seconds < Instant.calendarEnd)

include valid inSpans configures since ahead

/-- The calendar holds the beginnings of all intervals exactly if all directories are put down for the current
second. -/
theorem inCalendar_iff : c.InCalendar now ↔
    ∀ p ∈ c.pickupsBy .scheduled, p.registration.second? settings now = some now.seconds := by
  have spans := ((inSpans_iff valid).mp inSpans).2.2
  exact forall₂_congr fun p member => (second?_eq_now_iff configures (spans p member) since ahead).symm

/-- Once all targets were taken, the receivers run as the configuration asks exactly if each was put down for the
current second. -/
theorem started_of_took {a : Assembly} (receives : c.Receives a) {s : Schedule.Scheduler Intake.Pickup}
    (took : Scheduled.Took settings now .empty (c.scheduledReceiver settings).pending s) :
    c.Started now
        { a with scheduled := { c.scheduledReceiver settings with pending := [], scheduler := s } } ↔
      c.InCalendar now := by
  have spans := ((inSpans_iff valid).mp inSpans).2.2
  have waits (p : Config.Pickup) (member : p ∈ c.pickupsBy .scheduled) :
      ∃ second, p.registration.second? settings now = some second ∧
        (c.IsScheduled s now.seconds p ↔ second = now.seconds) := by
    obtain ⟨second, put, found⟩ := took.found p.registration (List.mem_map_of_mem member)
    exact ⟨second, put, isScheduled_iff configures (spans p member) found now.seconds⟩
  rw [inCalendar_iff valid inSpans configures since ahead]
  constructor
  · intro started p member
    obtain ⟨second, put, iff⟩ := waits p member
    rw [put, iff.mp (started.scheduled p member)]
  · intro current
    refine ⟨⟨receives.http, receives.batches⟩, rfl, fun p member => ?_, ?_, ?_⟩
    · obtain ⟨second, put, iff⟩ := waits p member
      rw [current p member] at put
      exact iff.mpr (Option.some.inj put).symm
    · have size := (took.counted Table.sorted_empty).2
      rw [scheduledReceiver, List.length_map] at size
      exact size.trans (Nat.zero_add _)
    · have buckets := took.buckets now.seconds (List.forall_mem_map.mpr current)
      rw [scheduledReceiver, map_key_registration] at buckets
      simpa using buckets.trans (Schedule.Buckets.pushAll_nil _ _)

/-- Once its receivers are set up, a configuration is started as it asks exactly if the calendar holds the
beginnings of all intervals, and no receiver refuses. -/
theorem started_iff_inCalendar {a : Assembly} (receives : c.Receives a)
    (scheduled : a.scheduled = c.scheduledReceiver settings) :
    (∀ cause, a.start now ≠ .error (.refused cause)) ∧
      ((∃ b, a.start now = .ok b ∧ c.Started now b) ↔ c.InCalendar now) := by
  have apart : ((c.scheduledReceiver settings).pending.map (·.key)).Nodup := by
    rw [scheduledReceiver, map_key_registration]
    exact valid.keys.sublist (List.filter_sublist.map _)
  rw [Assembly.start, scheduled]
  rcases Scheduled.Receiver.registerTargets_of_free (fun _ _ => rfl) apart now with
    ⟨s, done, took⟩ | ⟨stopped, r, member, unknown⟩
  · rw [done, ← started_of_took valid inSpans configures since ahead receives took]
    exact ⟨fun cause => by simp, by simp⟩
  · rw [stopped, inCalendar_iff valid inSpans configures since ahead]
    refine ⟨fun cause => by simp, iff_of_false (by simp) fun current => ?_⟩
    obtain ⟨p, listed, rfl⟩ := List.mem_map.mp member
    rw [scheduledReceiver, current p listed] at unknown
    cases unknown

end

end Config

end Intake
