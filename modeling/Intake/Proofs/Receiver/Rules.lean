/-
Module: Intake.Proofs.Receiver.Rules
Purpose: Reading a setting is checking its text by a rule and taking what it asks for.
Main exports: Duration.IsMillis, Settings.check, Settings.check_cons, Settings.asked_of_forall,
  Settings.reads_by_rule, Settings.natural_eq, Settings.readPositive_eq
-/
import Intake.Proofs.Number.Digits
import Intake.Receiver.Rules

namespace Intake

/-! ### Spans in milliseconds

A setting in milliseconds is stored as a span and read back when it is not asked for.  A word of 64 binary
digits comes back whole. -/

namespace Duration

variable {n : Nat} {d : Duration}

/-- A span that comes back when it passes through its milliseconds. -/
def IsMillis (d : Duration) : Prop := ofMillis d.shortMillis = d

theorem shortMillis_ofMillis (fits : n ≤ max64) : (ofMillis n).shortMillis = n := by
  have whole : (ofMillis n).wholeMillis = n := Nat.mul_div_cancel n (by decide)
  rw [shortMillis, whole, Nat.mod_eq_of_lt (Nat.lt_succ_of_le fits)]

theorem isMillis_ofMillis (fits : n ≤ max64) : (ofMillis n).IsMillis := by
  rw [IsMillis, shortMillis_ofMillis fits]

theorem ofMillis_pos (positive : 0 < n) : .zero < ofMillis n := Nat.mul_pos positive (by decide)

theorem shortMillis_le (d : Duration) : d.shortMillis ≤ max64 := Nat.le_of_lt_succ (Nat.mod_lt _ (by decide))

end Duration

namespace Settings

variable {settings : Settings} {key : String}

/-! ### Checks by rules

A rule is about one setting and objects to its text.  A missing setting is never objected to, because the
current value stays. -/

/-- A change passes the rules, or is refused for the first objection. -/
def check (settings : Settings) (rules : List Rule) : Except ReceiverError Unit :=
  match settings.firstObjection? rules with
  | some (key, reason) => .error (.invalidSetting key reason)
  | none => .ok ()

/-- Rules are checked one after another. -/
theorem check_cons (rule next : Rule) (rules : List Rule) : settings.check (rule :: next :: rules) =
    (do settings.check [rule]; settings.check (next :: rules)) := by
  simp only [check, firstObjection?, List.findSome?_cons, List.findSome?_nil]
  cases settings.objection? rule with
  | some o => rfl
  | none => rfl

variable {rule : Rule} {text : String}

/-- Nothing objects to a setting that is missing. -/
theorem check_of_missing (missing : settings.find? rule.name = none) : settings.check [rule] = .ok () := by
  simp only [check, firstObjection?, List.findSome?_cons, List.findSome?_nil, objection?, missing]
  rfl

/-- The text of a setting is objected to for a reason, under its name. -/
theorem check_of_found (found : settings.find? rule.name = some text) : settings.check [rule] =
    match rule.objection? text with
    | none => .ok ()
    | some reason => .error (.invalidSetting rule.name reason) := by
  simp only [check, firstObjection?, List.findSome?_cons, List.findSome?_nil, objection?, found,
    Option.bind_some]
  cases rule.objection? text with
  | none => rfl
  | some reason => rfl

theorem objection?_of_found (found : settings.find? rule.name = some text)
    (passes : settings.objection? rule = none) : rule.objection? text = none := by
  rw [objection?, found, Option.bind_some, Option.map_eq_none_iff] at passes
  exact passes

theorem objection?_of_firstObjection? {rules : List Rule} (passes : settings.firstObjection? rules = none)
    (member : rule ∈ rules) : settings.objection? rule = none :=
  List.findSome?_eq_none_iff.mp passes rule member

variable {reason : String} {read? : String → Option α} {current : α}

/-- A setting that is missing has its current value. -/
theorem asked_of_missing (missing : settings.find? key = none) : settings.asked key read? current = current := by
  rw [asked, missing]
  rfl

/-- Any other has the value that its text is read as. -/
theorem asked_of_found (found : settings.find? key = some text) :
    settings.asked key read? current = (read? text).getD current := by
  rw [asked, found, Option.bind_some]

/-- What is made of a value that is asked for is asked for itself. -/
theorem asked_map {f : α → β} {next : β} (same : f current = next) :
    f (settings.asked key read? current) = settings.asked key (fun text => (read? text).map f) next := by
  cases found : settings.find? key with
  | none => rw [asked_of_missing found, asked_of_missing found, same]
  | some text =>
      rw [asked_of_found found, asked_of_found found]
      cases read? text with
      | none => exact same
      | some value => rfl

/-- What is true of the current value and of all that is read from a text is true of the value that is asked
for. -/
theorem asked_of_forall {p : α → Prop} (own : p current)
    (read : ∀ text value, settings.find? key = some text → read? text = some value → p value) :
    p (settings.asked key read? current) := by
  cases found : settings.find? key with
  | none => rwa [asked_of_missing found]
  | some text =>
      rw [asked_of_found found]
      cases done : read? text with
      | none => exact own
      | some value => exact read text value found done

theorem naturalOf_of_natural? {n : Nat} (done : natural? text = some n) : naturalOf text = .ok n := by
  simp only [natural?, Except.toOption] at done
  split at done
  · next read =>
      cases done
      exact read
  · cases done

theorem natural?_le {n : Nat} (done : natural? text = some n) : n ≤ max64 :=
  readNatural_le (naturalOf_of_natural? done)

/-- A text that passes is accepted, and so is the current one if it was before. -/
theorem accepted_asked (accepts : String → Bool) {current : String} (own : accepts current = true)
    (passes : settings.objection? (.text key accepts reason) = none) :
    accepts (settings.asked key some current) = true := by
  refine asked_of_forall (p := (accepts · = true)) own fun text value found same => ?_
  obtain rfl := Option.some.inj same
  have none := objection?_of_found found passes
  cases taken : accepts text with
  | true => rfl
  | false => simp [Rule.text, taken] at none

theorem positive_asked {current : Nat} (own : 0 < current)
    (passes : settings.objection? (.positive key reason) = none) :
    0 < settings.asked key natural? current := by
  refine asked_of_forall own fun text n found done => ?_
  have none := objection?_of_found found passes
  refine Nat.pos_of_ne_zero fun zero => ?_
  simp [Rule.positive, naturalOf_of_natural? done, zero] at none

theorem isMillis_asked {d : Duration} (own : d.IsMillis) : (settings.asked key millis? d).IsMillis := by
  refine asked_of_forall own fun text span _ read => ?_
  obtain ⟨n, number, rfl⟩ := Option.map_eq_some_iff.mp read
  exact Duration.isMillis_ofMillis (natural?_le number)

/-! ### Readers

Every reader keeps the current value of a missing setting and otherwise answers for the text.  That makes it a
check by one rule, followed by the value that is asked for. -/

/-- A reader that keeps the current value where the setting is missing, and otherwise answers as a rule does,
checks by the rule and takes what is asked for. -/
theorem reads_by_rule (rule : Rule) {result : Except ReceiverError α}
    (missing : settings.find? rule.name = none → result = .ok current)
    (present : ∀ text, settings.find? rule.name = some text → result =
      match rule.objection? text with
      | none => .ok ((read? text).getD current)
      | some reason => .error (.invalidSetting rule.name reason)) :
    result = (do settings.check [rule]; return settings.asked rule.name read? current) := by
  cases found : settings.find? rule.name with
  | none =>
      rw [check_of_missing found, asked_of_missing found, missing found]
      rfl
  | some text =>
      rw [check_of_found found, asked_of_found found, present text found]
      cases rule.objection? text with
      | none => rfl
      | some reason => rfl

theorem natural_eq (key : String) (current : Nat) : settings.natural key max64 current =
    (do settings.check [.natural key]; return settings.asked key natural? current) := by
  refine reads_by_rule (.natural key) (fun (missing : settings.find? key = none) => ?_)
    fun text (found : settings.find? key = some text) => ?_
  · simp only [natural, missing]
  · simp only [natural, found, Rule.natural, Rule.readable, natural?, naturalOf]
    cases readNatural max64 (trimChars text.toList) with
    | ok n => rfl
    | error e => rfl

theorem double_eq (key : String) (current : Binary64) : settings.double key current =
    (do settings.check [.double key]; return settings.asked key double? current) := by
  refine reads_by_rule (.double key) (fun (missing : settings.find? key = none) => ?_)
    fun text (found : settings.find? key = some text) => ?_
  · simp only [double, missing]
  · simp only [double, found, Rule.double, Rule.readable, double?, doubleOf]
    cases Binary64.read (trimChars text.toList) with
    | ok x => rfl
    | error e => rfl

/-- A text is taken as it is written. -/
theorem text_eq (key : String) (accepts : String → Bool) (reason current : String) :
    (match settings.find? key with
      | none => Except.ok current
      | some text => if accepts text then .ok text else .error (.invalidSetting key reason)) =
      (do settings.check [.text key accepts reason]; return settings.asked key some current) := by
  refine reads_by_rule (.text key accepts reason) (fun (missing : settings.find? key = none) => ?_)
    fun text (found : settings.find? key = some text) => ?_
  · rw [missing]
  · simp only [found, Rule.text]
    cases accepts text with
    | true => rfl
    | false => rfl

/-- Reading a natural number of which zero is refused, be it asked for or current. -/
def readPositive (settings : Settings) (key reason : String) (current : Nat) : Except ReceiverError Nat := do
  let n ← settings.natural key max64 current
  if n = 0 then .error (.invalidSetting key reason) else .ok n

/-- A positive current value needs no check, so that the check is one of the text alone. -/
theorem readPositive_eq (key reason : String) {current : Nat} (positive : 0 < current) :
    settings.readPositive key reason current =
      (do settings.check [.positive key reason]; return settings.asked key natural? current) := by
  refine reads_by_rule (.positive key reason) (fun (missing : settings.find? key = none) => ?_)
    fun text (found : settings.find? key = some text) => ?_
  · simp only [readPositive, natural, missing]
    exact if_neg (Nat.ne_of_gt positive)
  · simp only [readPositive, natural, found, Rule.positive, natural?, naturalOf]
    cases readNatural max64 (trimChars text.toList) with
    | error e => rfl
    | ok n =>
        cases n with
        | zero => rfl
        | succ n => rfl

/-! ### Names that no rule has

A setting without a rule changes nothing, whatever its text is. -/

variable {other : Settings} {rules : List Rule}

/-- Settings that agree on the names of the rules are objected to alike. -/
theorem Agree.firstObjection?_eq (agree : settings.Agree other rules) :
    settings.firstObjection? rules = other.firstObjection? rules := by
  induction rules with
  | nil => rfl
  | cons rule rules ih =>
      obtain ⟨same, rest⟩ := List.forall_mem_cons.mp agree
      have ih := ih rest
      rw [firstObjection?, firstObjection?] at ih ⊢
      rw [List.findSome?_cons, List.findSome?_cons, objection?, objection?, same, ih]

theorem asked_congr (same : settings.find? key = other.find? key) :
    settings.asked key read? current = other.asked key read? current := by
  rw [asked, asked, same]

end Settings

end Intake
