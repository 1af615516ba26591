/-
Module: Intake.Proofs.Pickup.Names
Purpose: The names that files have on their way through a pickup are told apart.
Main exports: FileName.IsText, FileName.ofText_shown, FileName.IsText.stem, Pickup.ownName?_claimedName,
  Pickup.parkedName_claimedName, Pickup.ne_claimedName_of_isClaimable,
  Pickup.ne_setAsideName_of_isClaimable, Pickup.claimedName_ne_setAsideName
-/
import Intake.Pickup.Claim
import Intake.Proofs.Files.Routes
import Intake.Proofs.Text.Utf8

namespace Intake

namespace FileName

/-- The name is the encoding of a text. -/
def IsText (name : FileName) : Prop := ∃ s, name = ofText s

/-- A name is a text exactly if it can be read as one. -/
theorem isText_iff (name : FileName) : name.IsText ↔ name.text?.isSome = true := by
  rw [Option.isSome_iff_exists]
  constructor
  · rintro ⟨s, rfl⟩
    exact ⟨s, Bytes.text?_eq_some_iff.mpr rfl⟩
  · rintro ⟨s, found⟩
    exact ⟨s, (Bytes.text?_eq_some_iff.mp found).symm⟩

theorem ofText_append (s t : String) : ofText (s ++ t) = ofText s ++ ofText t := by
  rw [ofText, Utf8.bytesOf, String.toList_append, Utf8.encode_append]
  rfl

/-- A text behind a name that is a text makes a text. -/
theorem IsText.append {name : FileName} (h : name.IsText) (s : String) :
    IsText (name ++ ofText s) := by
  obtain ⟨t, rfl⟩ := h
  exact ⟨t ++ s, (ofText_append t s).symm⟩

/-- A name that is a text is not changed by showing it. -/
theorem ofText_shown {name : FileName} (h : name.IsText) : ofText name.shown = name := by
  obtain ⟨s, rfl⟩ := h
  exact congrArg ofText (Utf8.decodeLossy_bytesOf s)

/-- A name without a dot is not split. -/
theorem splitLastDot?_eq_none {name : FileName} (h : dot ∉ name) : splitLastDot? name = none := by
  induction name with
  | nil => rfl
  | cons b rest ih =>
      rw [List.mem_cons, not_or] at h
      rw [splitLastDot?, ih h.2]
      exact if_neg (Ne.symm h.1)

theorem splitLastDot?_append (name : FileName) {ext : Bytes} (h : dot ∉ ext) :
    splitLastDot? (name ++ dot :: ext) = some (name, ext) := by
  induction name with
  | nil =>
      rw [List.nil_append, splitLastDot?, splitLastDot?_eq_none h]
      exact if_pos rfl
  | cons b rest ih => rw [List.cons_append, splitLastDot?, ih]

/-- What a name is split into makes up the name, together with the dot. -/
theorem eq_of_splitLastDot? {name before behind : Bytes} (found : splitLastDot? name = some (before, behind)) :
    name = before ++ dot :: behind := by
  induction name generalizing before with
  | nil => cases found
  | cons b rest ih =>
      rw [splitLastDot?] at found
      split at found
      · next one two later =>
          cases found
          rw [ih later, List.cons_append]
      · split at found
        · next same =>
            cases found
            rw [same, List.nil_append]
        · cases found

/-- The stem of a text is a text. -/
theorem IsText.stem {name : FileName} (h : name.IsText) : IsText name.stem := by
  rw [FileName.stem]
  split
  · next b before behind found =>
      obtain ⟨s, rfl⟩ := h
      obtain ⟨one, same⟩ :=
        Utf8.exists_encode_eq_of_split (a := dot) (by decide) (eq_of_splitLastDot? found)
      exact ⟨String.ofList one, by rw [ofText, Utf8.bytesOf_ofList, same]⟩
  · exact h

/-- What follows the last dot is the extension, unless there is nothing before that dot. -/
theorem extension?_append {name : FileName} (h : name ≠ []) {ext : Bytes} (plain : dot ∉ ext) :
    extension? (name ++ dot :: ext) = some ext := by
  rw [extension?, splitLastDot?_append name plain]
  cases name with
  | nil => exact absurd rfl h
  | cons b rest => rfl

end FileName

namespace Pickup

theorem processingEnding_eq : processingEnding = FileName.dot :: Utf8.bytesOf "processing" := by
  decide

theorem exceptionEnding_eq : exceptionEnding = FileName.dot :: Utf8.bytesOf "exception" := by
  decide

/-- Only names that are texts are picked up. -/
theorem isText_of_isClaimable {name : FileName} (h : isClaimable name = true) : name.IsText := by
  rw [isClaimable, Bool.and_eq_true, isHidden, Bool.not_eq_true', Bool.or_eq_false_iff, Bool.or_eq_false_iff] at h
  rw [FileName.isText_iff]
  simpa using h.1.1.2

/-- A name that is picked up has no slash in it. -/
theorem slash_notMem_of_isClaimable {name : FileName} (h : isClaimable name = true) : FilePath.slash ∉ name := by
  rw [isClaimable, Bool.and_eq_true, isHidden, Bool.not_eq_true', Bool.or_eq_false_iff] at h
  simpa using h.1.2

/-- A skipped extension keeps a file from being claimed, whatever stands before it. -/
theorem not_isClaimable_append (name : FileName) {ext : Bytes} (plain : FileName.dot ∉ ext)
    (skipped : skippedExtensions.contains ext = true) :
    isClaimable (name ++ FileName.dot :: ext) = false := by
  cases name with
  | nil => rfl
  | cons b rest =>
      have known : FileName.extension? (b :: rest ++ FileName.dot :: ext) = some ext :=
        FileName.extension?_append (List.cons_ne_nil b rest) plain
      rw [isClaimable, isSkipped, known]
      simp only [skipped, Bool.not_true, Bool.and_false]

/-- No claimed file is picked up. -/
theorem not_isClaimable_claimedName (name : FileName) : isClaimable (claimedName name) = false := by
  rw [claimedName, processingEnding_eq]
  exact not_isClaimable_append name (by decide) (by decide)

/-- No file that was set aside is picked up. -/
theorem not_isClaimable_setAsideName (name : FileName) :
    isClaimable (setAsideName name) = false := by
  rw [setAsideName, exceptionEnding_eq]
  exact not_isClaimable_append name (by decide) (by decide)

/-- No file that is picked up has a name that looks like a claim. -/
theorem ne_claimedName_of_isClaimable {name : FileName} (h : isClaimable name = true)
    (other : FileName) : name ≠ claimedName other := by
  intro same
  rw [same, not_isClaimable_claimedName] at h
  cases h

/-- None has a name that looks like that of a file set aside. -/
theorem ne_setAsideName_of_isClaimable {name : FileName} (h : isClaimable name = true)
    (other : FileName) : name ≠ setAsideName other := by
  intro same
  rw [same, not_isClaimable_setAsideName] at h
  cases h

theorem slash_notMem_processingEnding : FilePath.slash ∉ processingEnding := by decide

theorem slash_notMem_exceptionEnding : FilePath.slash ∉ exceptionEnding := by decide

/-- The name of a claim is always the name of a file. -/
theorem leadsOn_claimedName (name : FileName) : FilePath.leadsOn (claimedName name) = true :=
  (FilePath.append_leadsOn name (by decide)).1

theorem slash_notMem_claimedName {name : FileName} (h : isClaimable name = true) :
    FilePath.slash ∉ claimedName name := by
  rw [claimedName, List.mem_append, not_or]
  exact ⟨slash_notMem_of_isClaimable h, slash_notMem_processingEnding⟩

/-- Files of different names are set aside under different names. -/
theorem setAsideName_injective {a b : FileName} (same : setAsideName a = setAsideName b) : a = b :=
  List.append_cancel_right same

/-- Files of different names have different claims. -/
theorem claimedName_injective {a b : FileName} (same : claimedName a = claimedName b) : a = b :=
  List.append_cancel_right same

/-- The claim of a file whose name is a text has a text for its name. -/
theorem isText_claimedName {name : FileName} (h : name.IsText) : (claimedName name).IsText :=
  h.append ".processing"

/-- A claimed file is known by its own name. -/
theorem ownName?_claimedName {name : FileName} (h : name.IsText) :
    ownName? (claimedName name) = some name := by
  have text := (FileName.isText_iff _).mp (isText_claimedName h)
  obtain ⟨s, found⟩ := Option.isSome_iff_exists.mp text
  have ending : processingEnding.isSuffixOf (claimedName name) = true := by
    rw [List.isSuffixOf_iff_suffix]
    exact List.suffix_append name processingEnding
  rw [ownName?, found]
  simp only [FileName.withoutEnding?]
  rw [if_pos ending, claimedName, List.length_append, Nat.add_sub_cancel, List.take_left]

/-- A claim is set aside under the name that the file itself would be set aside under. -/
theorem parkedName_claimedName {name : FileName} (h : name.IsText) :
    parkedName (claimedName name) = setAsideName name := by
  rw [parkedName, ownName?_claimedName h, Option.getD_some]

/-- A name under which a file can be claimed leaves room to set it aside. -/
theorem length_setAsideName_lt (name : FileName) :
    (setAsideName name).length < (claimedName name).length := by
  have lengths : exceptionEnding.length < processingEnding.length := by decide
  rw [setAsideName, claimedName, List.length_append, List.length_append]
  exact Nat.add_lt_add_left lengths name.length

/-- The name of a claim is longer than that of its file. -/
theorem length_lt_claimedName (name : FileName) : name.length < (claimedName name).length := by
  have ending : 0 < processingEnding.length := by decide
  rw [claimedName, List.length_append]
  exact Nat.lt_add_of_pos_right ending

/-- No file is claimed under a name under which another one is set aside. -/
theorem claimedName_ne_setAsideName (a b : FileName) : claimedName a ≠ setAsideName b := by
  intro same
  have g : processingEnding.getLast? = some 0x67 := by decide
  have n : exceptionEnding.getLast? = some 0x6E := by decide
  have last := congrArg List.getLast? same
  rw [claimedName, setAsideName, List.getLast?_append, List.getLast?_append, g, n, Option.some_or,
    Option.some_or] at last
  cases last

end Pickup

end Intake
