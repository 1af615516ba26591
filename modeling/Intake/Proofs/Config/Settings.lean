/-
Module: Intake.Proofs.Config.Settings
Purpose: The settings that a valid configuration gives to its receivers are taken as they were meant.
Main exports: Settings.natural_written, Settings.double_written, Config.readNumbers_pollSettings,
  Config.configure_batchSettings, Config.configure_httpSettings, Config.rendered_settings_arrive

A receiver sees texts only.  What a configuration writes into them has to read back as the number it was, and
has to pass the checks of the receiver once more.
-/
import Intake.Proofs.Config.Reading

namespace Intake

/-! ### Texts of numbers

Numbers are handed to receivers as texts.  Their texts are such that the receivers read the same numbers. -/

/-- Without white space there is nothing to trim. -/
theorem trimChars_of_not_isBlank {s : List Char} (plain : ∀ c ∈ s, isBlank c = false) : trimChars s = s := by
  have front : s.dropWhile isBlank = s := by
    cases s with
    | nil => rfl
    | cons c rest => rw [List.dropWhile_cons, if_neg (by simp [plain c List.mem_cons_self])]
  rw [trimChars, front]
  clear front
  induction s with
  | nil => rfl
  | cons c rest ih =>
      rw [dropEndWhile, ih fun d member => plain d (List.mem_cons_of_mem c member)]
      cases rest with
      | nil => simp [plain c List.mem_cons_self]
      | cons d others => rfl

namespace Settings

variable {settings : Settings} {key : String}

/-- A natural number within the limit reads back from its digits. -/
theorem natural_written {limit n : Nat} (current : Nat) (found : settings.find? key = some (toString n))
    (fits : n ≤ limit) : settings.natural key limit current = .ok n := by
  have digits : (toString n).toList = Nat.toDigits 10 n := by simp
  have plain : ∀ c ∈ Nat.toDigits 10 n, isBlank c = false := fun c member =>
    Binary64.not_isBlank (.inl (isDigit_of_mem_toDigits member))
  simp only [natural, found, digits, trimChars_of_not_isBlank plain, readNatural_toDigits fits]

/-- A finite double reads back from its plain text. -/
theorem double_written {x : Binary64} (current : Binary64) (found : settings.find? key = some x.plainText)
    (finite : x.isFinite = true) (double : x.IsDouble) : settings.double key current = .ok x := by
  cases x with
  | nan => cases finite
  | infinite negative => cases finite
  | finite negative units =>
      simp only [Settings.double, found, trimChars_of_not_isBlank Binary64.not_isBlank_plainText,
        Binary64.read_plainText double]

end Settings

namespace Config

variable {c : Config}

/-! ### The scheduled receiver

It is handed two bounds and a wait. -/

/-- Bounds of a valid configuration pass the check of the receiver. -/
theorem checkSeconds_of_isSeconds {key : String} {x : Binary64} (h : x.IsSeconds) :
    PollSettings.checkSeconds key x = .ok () := by
  rw [PollSettings.checkSeconds, h.finite, h.nonneg]
  rfl

/-- Bounds and wait arrive unchanged. -/
theorem readNumbers_pollSettings (valid : c.Valid) (fits : c.Fits) (current : PollSettings) :
    PollSettings.readNumbers current c.pollSettings =
      .ok (c.polling.minSecs, c.polling.maxSecs, c.polling.idleWaitMs) := by
  have least : c.pollSettings.double "min_interval_secs" current.least.toSeconds = .ok c.polling.minSecs :=
    Settings.double_written _ (by simp [pollSettings, Table.ofList]) valid.least.finite fits.least
  have greatest :
      c.pollSettings.double "max_interval_secs" current.greatest.toSeconds = .ok c.polling.maxSecs :=
    Settings.double_written _ (by simp [pollSettings, Table.ofList]) valid.greatest.finite fits.greatest
  have idle :
      c.pollSettings.natural "idle_wait_ms" max64 current.idleWait.shortMillis = .ok c.polling.idleWaitMs :=
    Settings.natural_written _ (by simp [pollSettings, Table.ofList]) fits.idle
  rw [PollSettings.readNumbers, least, greatest, idle]
  simp only [bind, Except.bind, checkSeconds_of_isSeconds valid.least, checkSeconds_of_isSeconds valid.greatest]
  rfl

/-! ### The receivers of batches

They are handed an interval. -/

theorem configure_batchSettings (valid : c.Valid) (fits : c.Fits) (current : BatchSettings) :
    current.configure c.batchSettings = .ok ⟨.ofMillis c.batch.pollingIntervalMs⟩ := by
  have interval : c.batchSettings.natural "polling_interval_ms" max64 current.interval.shortMillis =
      .ok c.batch.pollingIntervalMs :=
    Settings.natural_written _ (by simp [batchSettings, Table.ofList]) fits.interval
  obtain ⟨before, positive⟩ := Nat.exists_eq_succ_of_ne_zero valid.interval
  rw [positive] at interval ⊢
  simp only [BatchSettings.configure, interval]

/-! ### The receiver of HTTP

It is handed an address, a path and a number of accepts. -/

/-- The settings that a section asks for. -/
def Http.received (http : Http) : HttpSettings :=
  ⟨http.bindAddress, http.maxConcurrentAccepts, http.submitPath, .ofMillis http.shutdownGraceMs⟩

/-- Only the address and the path can be refused: what the receiver was before plays no part, since the section
names all four settings. -/
theorem configure_httpSettings_eq {http : Http} (valid : c.Valid) (fits : c.Fits) (served : http ∈ c.http)
    (current : HttpSettings) : current.configure http.settings =
      if Address.isSocketAddress http.bindAddress = false then
        .error (.invalidSetting "bind_address" "invalid socket address syntax")
      else if http.submitPath.toList.head? = some '/' then .ok http.received
      else .error (.invalidSetting "submit_path" "must start with '/'") := by
  obtain ⟨few, short⟩ := fits.http http served
  have address : http.settings.find? "bind_address" = some http.bindAddress := by
    simp [Http.settings, Table.ofList]
  have pending : HttpSettings.readMaxAccepts http.settings current.maxAccepts =
      .ok http.maxConcurrentAccepts := by
    have read : http.settings.natural "max_concurrent_accepts" max64 current.maxAccepts =
        .ok http.maxConcurrentAccepts :=
      Settings.natural_written _ (by simp [Http.settings, Table.ofList]) few
    obtain ⟨before, positive⟩ := Nat.exists_eq_succ_of_ne_zero (valid.accepts http served)
    rw [positive] at read ⊢
    simp only [HttpSettings.readMaxAccepts, read]
  have path : http.settings.find? "submit_path" = some http.submitPath := by
    simp [Http.settings, Table.ofList]
  have grace : http.settings.natural "shutdown_grace_ms" max64 current.grace.shortMillis =
      .ok http.shutdownGraceMs :=
    Settings.natural_written _ (by simp [Http.settings, Table.ofList]) short
  simp only [HttpSettings.configure, HttpSettings.readAddress, address, HttpSettings.readSubmitPath, path]
  cases bindable : Address.isSocketAddress http.bindAddress with
  | false => rfl
  | true =>
      simp only [if_pos, bind, Except.bind, pending, Bool.true_eq_false, if_false]
      by_cases rooted : http.submitPath.toList.head? = some '/'
      · simp only [if_pos rooted, grace]
        rfl
      · simp only [if_neg rooted]

/-- A receiver is set up at every address that can be bound and under every path. -/
theorem configure_httpSettings {http : Http} (valid : c.Valid) (fits : c.Fits) (served : http ∈ c.http)
    (bindable : Address.isSocketAddress http.bindAddress = true)
    (rooted : http.submitPath.toList.head? = some '/') (current : HttpSettings) :
    current.configure http.settings =
      .ok ⟨http.bindAddress, http.maxConcurrentAccepts, http.submitPath, .ofMillis http.shutdownGraceMs⟩ := by
  rw [configure_httpSettings_eq valid fits served, if_neg (by simp [bindable]), if_pos rooted]
  rfl

/-! ### All receivers

Every receiver reads the settings that its section writes. -/

/-- What a configuration that passes its checks writes for its receivers is read as it was meant, by every
receiver and whatever it was before: the sleep of batches always, and the section for HTTP exactly if its address
can be bound and its path starts with a slash. -/
theorem rendered_settings_arrive (c : Config) (passed : c.validate = .ok ()) (fits : c.Fits) :
    (∀ current : BatchSettings,
      current.configure c.batchSettings = .ok ⟨.ofMillis c.batch.pollingIntervalMs⟩) ∧
    (∀ settings ∈ c.httpSettings?, ∃ http ∈ c.http, settings = http.settings) ∧
    ∀ http ∈ c.http, ∃ settings ∈ c.httpSettings?, ∀ current : HttpSettings,
      ((∃ next, current.configure settings = .ok next) ↔
        Address.isSocketAddress http.bindAddress = true ∧ http.submitPath.toList.head? = some '/') ∧
      ∀ next, current.configure settings = .ok next →
        next.bindAddress = http.bindAddress ∧ next.maxAccepts = http.maxConcurrentAccepts ∧
          next.submitPath = http.submitPath ∧ next.grace = .ofMillis http.shutdownGraceMs := by
  have valid := valid_of_validate passed
  refine ⟨configure_batchSettings valid fits, fun settings known => ?_, fun http served => ?_⟩
  · obtain ⟨http, served, rfl⟩ := Option.map_eq_some_iff.mp known
    exact ⟨http, served, rfl⟩
  · refine ⟨http.settings, Option.mem_map_of_mem Http.settings served, fun current => ?_⟩
    rw [configure_httpSettings_eq valid fits served]
    cases bindable : Address.isSocketAddress http.bindAddress with
    | false => simp
    | true =>
        rw [if_neg (by decide)]
        split
        · next rooted =>
            refine ⟨iff_of_true ⟨_, rfl⟩ ⟨rfl, rooted⟩, fun next done => ?_⟩
            cases done
            exact ⟨rfl, rfl, rfl, rfl⟩
        · next unrooted => exact ⟨by simp [unrooted], fun next done => by cases done⟩

/-- The greatest numbers of 64 binary digits, an address of version 6 and the path of everything. -/
theorem greatest_settings_arrive :
    let http : Http := ⟨"[::1]:8090", max64, "/", max64⟩
    let c : Config :=
      { identity := ⟨"relay", standardPipeline⟩, polling := .standard, batch := ⟨max64⟩, http := some http
        pickups := [], health := .standard }
    c.validate = .ok () ∧ c.Fits ∧
      (∀ current : BatchSettings, current.configure c.batchSettings = .ok ⟨.ofMillis max64⟩) ∧
      ∃ settings ∈ c.httpSettings?, ∀ current : HttpSettings, ∃ next,
        current.configure settings = .ok next ∧ next.bindAddress = "[::1]:8090" ∧
          next.maxAccepts = max64 ∧ next.submitPath = "/" ∧ next.grace = .ofMillis max64 := by
  intro http c
  have passed : c.validate = .ok () := by decide +kernel
  have fits : c.Fits := by
    obtain ⟨least, greatest, idle⟩ := Polling.sized_standard
    refine ⟨least, greatest, idle.trans maxSigned64_le, Nat.le_refl max64, fun other served => ?_⟩
    obtain rfl := Option.mem_some.mp served
    exact ⟨Nat.le_refl max64, Nat.le_refl max64⟩
  obtain ⟨batches, -, served⟩ := rendered_settings_arrive c passed fits
  obtain ⟨settings, known, arrives⟩ := served http rfl
  refine ⟨passed, fits, batches, settings, known, fun current => ?_⟩
  obtain ⟨answered, fields⟩ := arrives current
  obtain ⟨next, done⟩ := answered.mpr (by decide +kernel)
  exact ⟨next, done, fields next done⟩

end Config

end Intake
