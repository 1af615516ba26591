/-
Module: Intake.Proofs.Fault.Credentials
Purpose: Which credential directories a sanitized text still shows.
Main exports: Redaction.pathRule_eq_none_iff, Redaction.covers_of_pathRule, Redaction.not_leadsIn_of_swept,
  Redaction.isUncovered_iff, Redaction.credentials_shown_iff_uncovered,
  Redaction.home_directory_is_reported

The rule for paths begins at a slash and asks for one more character of the path before the slash of the
credential directory.  In a run of characters of paths it therefore applies at the first slash, unless the
only credential directory of the run begins there or right behind it.  Where it applies it covers the rest
of the run.
-/
import Mathlib.Data.List.Infix
import Mathlib.Data.List.TakeWhile
import Intake.Fault.Exposure
import Intake.Proofs.Fault.Swept

namespace Intake

namespace Redaction

/-! ### Runs of characters of paths

A path reaches as far as the characters that paths are made of.  Whether it leads into a credential directory
is seen from this run alone. -/

theorem takeWhile_isPathChar_dropWhile (s : List Char) :
    (s.dropWhile isPathChar).takeWhile isPathChar = [] := by
  have stops := List.head?_dropWhile_not isPathChar s
  cases left : s.dropWhile isPathChar with
  | nil => rfl
  | cons c rest =>
      rw [left] at stops
      exact List.takeWhile_cons_of_neg (Bool.not_eq_true _ ▸ stops)

theorem isPathChar_of_mem_directory {directory : List Char} (member : directory ∈ credentialDirectories) :
    ∀ c ∈ directory, isPathChar c = true := by
  have all_path : ∀ directory ∈ credentialDirectories, directory.all isPathChar = true := by
    decide
  exact List.all_eq_true.mp (all_path directory member)

theorem isPathChar_slash : isPathChar '/' = true := by decide

/-- A text begins with a slash and another character of a path. -/
def StartsPath (s : List Char) : Prop := ∃ c rest, s = '/' :: c :: rest ∧ isPathChar c = true

namespace Enters

variable {s t : List Char}

theorem startsPath (enters : Enters s) : StartsPath s := by
  obtain ⟨directory, member, c, rest, rfl, -⟩ := enters
  have named : ∀ directory ∈ credentialDirectories, directory ≠ [] := by decide
  obtain ⟨d, letters, rfl⟩ := List.exists_cons_of_ne_nil (named directory member)
  exact ⟨d, _, rfl, isPathChar_of_mem_directory member d List.mem_cons_self⟩

/-- Two slashes in a row enter no directory. -/
theorem ne_slash {c : Char} {rest : List Char} (enters : Enters ('/' :: c :: rest)) : c ≠ '/' := by
  obtain ⟨directory, member, d, later, text, -⟩ := enters
  have named : ∀ directory ∈ credentialDirectories, directory ≠ [] ∧ directory.head? ≠ some '/' := by
    decide
  obtain ⟨nonempty, other⟩ := named directory member
  obtain ⟨e, letters, rfl⟩ := List.exists_cons_of_ne_nil nonempty
  injection text with _ text
  injection text with same _
  rintro rfl
  exact other (congrArg some same.symm)

/-- Whether a text begins with a credential directory is seen from its first characters of paths. -/
theorem of_run (enters : Enters s) (run : s.takeWhile isPathChar <+: t) : Enters t := by
  obtain ⟨directory, member, c, rest, rfl, path⟩ := enters
  obtain ⟨behind, rfl⟩ := run
  refine ⟨directory, member, c, rest.takeWhile isPathChar ++ behind, ?_, path⟩
  rw [List.takeWhile_cons_of_pos isPathChar_slash,
    List.takeWhile_append_of_pos (isPathChar_of_mem_directory member),
    List.takeWhile_cons_of_pos isPathChar_slash, List.takeWhile_cons_of_pos path, List.cons_append,
    List.append_assoc]
  rfl

end Enters

namespace LeadsIn

variable {s t : List Char}

theorem startsPath (leads : LeadsIn s) : StartsPath s := by
  obtain ⟨lead, path, rfl, nonempty, run, -⟩ := leads
  obtain ⟨c, others, rfl⟩ := List.exists_cons_of_ne_nil nonempty
  exact ⟨c, _, rfl, run c List.mem_cons_self⟩

theorem of_run (leads : LeadsIn s) (run : s.takeWhile isPathChar <+: t) : LeadsIn t := by
  obtain ⟨lead, path, rfl, nonempty, lead_run, enters⟩ := leads
  obtain ⟨behind, rfl⟩ := run
  refine ⟨lead, path.takeWhile isPathChar ++ behind, ?_, nonempty, lead_run,
    enters.of_run (List.prefix_append _ _)⟩
  rw [List.takeWhile_cons_of_pos isPathChar_slash, List.takeWhile_append_of_pos lead_run,
    List.cons_append, List.append_assoc]

/-- A path that leads into a credential directory can be begun further in front. -/
theorem extend (leads : LeadsIn s) {front : List Char} (run : ∀ c ∈ front, isPathChar c = true) :
    LeadsIn ('/' :: (front ++ s)) := by
  obtain ⟨lead, path, rfl, -, lead_run, enters⟩ := leads
  refine ⟨front ++ '/' :: lead, path, by rw [List.append_assoc, List.cons_append], by simp, ?_, enters⟩
  intro c member
  rcases List.mem_append.mp member with inFront | behind
  · exact run c inFront
  · rcases List.mem_cons.mp behind with rfl | inLead
    · exact isPathChar_slash
    · exact lead_run c inLead

end LeadsIn

/-- If no path leads in from the first slash of a run, then none does from further behind in the run. -/
theorem StartsPath.not_leadsIn {s early late : List Char} (starts : StartsPath s) (none_here : ¬ LeadsIn s)
    (split : s = early ++ late) (run : ∀ c ∈ early, isPathChar c = true) : ¬ LeadsIn late := by
  intro leads
  obtain ⟨c, rest, rfl, -⟩ := starts
  cases early with
  | nil => exact none_here (split ▸ leads)
  | cons d early =>
      injection split with _ split
      rw [split] at none_here
      exact none_here (leads.extend (List.forall_mem_cons.mp run).2)

/-! ### The rule

The rule is stated as a search along the run.  It is shown to apply exactly where a path leads into a
credential directory. -/

/-- The test for a directory at the beginning of a run. -/
theorem entersCredentials_iff {path : List Char} (run : ∀ c ∈ path, isPathChar c = true) :
    entersCredentials path = true ↔ Enters path := by
  constructor
  · intro enters
    rw [entersCredentials.eq_def] at enters
    split at enters
    · next path =>
        obtain ⟨directory, member, holds⟩ := List.any_eq_true.mp enters
        rw [Bool.and_eq_true, List.isPrefixOf_iff_prefix, decide_eq_true_iff] at holds
        obtain ⟨⟨name, rfl⟩, longer⟩ := holds
        cases name with
        | nil => simp at longer
        | cons c rest => exact ⟨directory, member, c, rest, by simp, run c (by simp)⟩
    · cases enters
  · rintro ⟨directory, member, c, rest, rfl, -⟩
    refine List.any_eq_true.mpr ⟨directory, member, ?_⟩
    rw [Bool.and_eq_true, List.isPrefixOf_iff_prefix, decide_eq_true_iff]
    exact ⟨⟨c :: rest, by simp⟩, by simp⟩

/-- The test for one anywhere in a run. -/
theorem reachesCredentials_iff {path : List Char} (run : ∀ c ∈ path, isPathChar c = true) :
    reachesCredentials path = true ↔ ∃ early late, path = early ++ late ∧ Enters late := by
  induction path with
  | nil =>
      constructor
      · intro reaches
        cases reaches
      · rintro ⟨early, late, split, enters⟩
        obtain ⟨c, rest, rfl, -⟩ := enters.startsPath
        simp at split
  | cons c rest ih =>
      have later := ih fun d member => run d (List.mem_cons_of_mem c member)
      rw [reachesCredentials, Bool.or_eq_true, entersCredentials_iff run, later]
      constructor
      · rintro (enters | ⟨early, late, rfl, enters⟩)
        · exact ⟨[], c :: rest, rfl, enters⟩
        · exact ⟨c :: early, late, rfl, enters⟩
      · rintro ⟨early, late, split, enters⟩
        cases early with
        | nil =>
            rw [List.nil_append] at split
            exact .inl (split ▸ enters)
        | cons d early =>
            injection split with _ split
            exact .inr ⟨early, late, split, enters⟩

theorem leadsIn_cons_cons_iff {c : Char} {rest : List Char} :
    LeadsIn ('/' :: c :: rest) ↔
      isPathChar c = true ∧ reachesCredentials (rest.takeWhile isPathChar) = true := by
  rw [reachesCredentials_iff fun d => List.mem_takeWhile_imp]
  constructor
  · rintro ⟨lead, path, split, nonempty, run, enters⟩
    obtain ⟨d, lead, rfl⟩ := List.exists_cons_of_ne_nil nonempty
    simp only [List.cons_append, List.cons.injEq, true_and] at split
    obtain ⟨rfl, rfl⟩ := split
    refine ⟨run c List.mem_cons_self, lead, path.takeWhile isPathChar, ?_, enters.of_run (List.prefix_refl _)⟩
    exact List.takeWhile_append_of_pos fun e member => run e (List.mem_cons_of_mem c member)
  · rintro ⟨path, early, late, split, enters⟩
    have whole : rest.takeWhile isPathChar ++ rest.dropWhile isPathChar = rest :=
      List.takeWhile_append_dropWhile
    have run : ∀ d ∈ rest.takeWhile isPathChar, isPathChar d = true := fun d => List.mem_takeWhile_imp
    rw [split] at whole run
    refine ⟨c :: early, late ++ rest.dropWhile isPathChar, ?_, List.cons_ne_nil c early, ?_, ?_⟩
    · rw [List.cons_append, ← List.append_assoc, whole]
    · intro d member
      rcases List.mem_cons.mp member with rfl | inEarly
      · exact path
      · exact run d (List.mem_append_left late inEarly)
    · exact enters.of_run ((List.takeWhile_prefix isPathChar).trans (List.prefix_append _ _))

/-- The rule applies exactly where a path begins that leads into a credential directory. -/
theorem pathRule_eq_none_iff {s : List Char} : pathRule s = none ↔ ¬ LeadsIn s := by
  rw [pathRule.eq_def]
  split
  · next c rest =>
      rw [leadsIn_cons_cons_iff, ← Bool.and_eq_true]
      dsimp only
      split
      · next applies => exact iff_of_false (by simp) (not_not_intro applies)
      · next passes => exact iff_of_true rfl passes
  · next other =>
      refine iff_of_true rfl fun leads => ?_
      obtain ⟨c, rest, text, -⟩ := leads.startsPath
      exact other c rest text

/-- The text that stands for a path. -/
def pathMark : List Char := "/***REDACTED***/".toList

theorem exists_run_of_pathRule {s replacement : List Char} {n : Nat}
    (applies : pathRule s = some (replacement, n)) :
    ∃ c rest, s = '/' :: c :: rest ∧ isPathChar c = true ∧ LeadsIn s ∧ replacement = pathMark ∧
      n = (rest.takeWhile isPathChar).length + 2 := by
  have leads : LeadsIn s := by
    by_contra none_leads
    rw [pathRule_eq_none_iff.mpr none_leads] at applies
    cases applies
  obtain ⟨c, rest, rfl, path⟩ := leads.startsPath
  have reaches := (leadsIn_cons_cons_iff.mp leads).2
  rw [pathRule_slash, path, reaches] at applies
  cases applies
  exact ⟨c, rest, rfl, path, leads, rfl, rfl⟩

theorem isBounded_pathRule : IsBounded pathRule := by
  intro s replacement n applies
  obtain ⟨c, rest, -, -, -, -, length⟩ := exists_run_of_pathRule applies
  exact ⟨by omega, length_le_of_pathRule applies⟩

/-- Where the rule applies, it covers the rest of the run. -/
theorem covers_of_pathRule {covered rest replacement : List Char}
    (applies : pathRule (covered ++ rest) = some (replacement, covered.length)) :
    replacement = pathMark ∧ (∀ c ∈ covered, isPathChar c = true) ∧ rest.takeWhile isPathChar = [] ∧
      LeadsIn (covered ++ rest) := by
  obtain ⟨c, behind, text, path, leads, mark, length⟩ := exists_run_of_pathRule applies
  have split : covered ++ rest =
      ('/' :: c :: behind.takeWhile isPathChar) ++ behind.dropWhile isPathChar := by
    rw [text, List.cons_append, List.cons_append, List.takeWhile_append_dropWhile]
  obtain ⟨rfl, rfl⟩ := List.append_inj split length
  refine ⟨mark, ?_, takeWhile_isPathChar_dropWhile behind, leads⟩
  intro d member
  rcases List.mem_cons.mp member with rfl | member
  · exact isPathChar_slash
  · rcases List.mem_cons.mp member with rfl | member
    · exact path
    · exact List.mem_takeWhile_imp member

/-! ### The course of the sweep

A sweep reads a text from left to right and writes what replaces it.  A directory that is still shown was read
where the path in front of it was covered already, or where no path begins. -/

section Course

variable {s t : List Char}

/-- The first characters of paths that are written are the first that are read. -/
theorem run_of_swept (swept : Swept pathRule s t) :
    t.takeWhile isPathChar <+: s.takeWhile isPathChar := by
  induction swept with
  | nil => exact List.prefix_refl _
  | @copied c rest written _ _ ih =>
      rw [List.takeWhile_cons, List.takeWhile_cons]
      split
      · exact List.cons_prefix_cons.mpr ⟨rfl, ih⟩
      · exact List.prefix_refl _
  | replaced nonempty applies _ _ =>
      obtain ⟨c, rest, text, -, -, rfl, -⟩ := exists_run_of_pathRule applies
      rw [text, List.takeWhile_cons_of_pos isPathChar_slash]
      exact ⟨_, rfl⟩

/-- The run at the beginning of what is written is one at the beginning of what is read. -/
theorem prefix_of_swept (swept : Swept pathRule s t) : t.takeWhile isPathChar <+: s :=
  (run_of_swept swept).trans (List.takeWhile_prefix isPathChar)

/-- A run in which no path leads into a credential directory is copied. -/
theorem run_copied_of_swept (swept : Swept pathRule s t)
    (passed : ∀ early late, s = early ++ late → (∀ c ∈ early, isPathChar c = true) → ¬ LeadsIn late) :
    s.takeWhile isPathChar <+: t := by
  induction swept with
  | nil => exact List.nil_prefix
  | @copied c rest written _ _ ih =>
      rw [List.takeWhile_cons]
      split
      · next path =>
          refine List.cons_prefix_cons.mpr ⟨rfl, ih fun early late split run => ?_⟩
          exact passed (c :: early) late (by rw [split, List.cons_append])
            (List.forall_mem_cons.mpr ⟨path, run⟩)
      · exact List.nil_prefix
  | @replaced covered rest _ _ _ applies _ _ =>
      have leads := (covers_of_pathRule applies).2.2.2
      exact absurd leads (passed [] (covered ++ rest) rfl (fun c none_such => by cases none_such))

/-- No path begins in the text that stands for one. -/
theorem exists_of_append_eq_pathMark {before path written : List Char} (starts : StartsPath path)
    (stops : written.takeWhile isPathChar = []) (split : pathMark ++ written = before ++ path) :
    ∃ behind, before = pathMark ++ behind ∧ written = behind ++ path := by
  rcases List.append_eq_append_iff.mp split with ⟨behind, later, same⟩ | ⟨late, mark, rfl⟩
  · exact ⟨behind, later, same⟩
  · obtain ⟨c, rest, text, path_c⟩ := starts
    have inside : late ∈ pathMark.tails := (List.mem_tails _ _).mpr ⟨before, mark.symm⟩
    have none_starts : ∀ late ∈ pathMark.tails,
        ¬ (late.head? = some '/' ∧ late[1]?.any isPathChar = true) := by decide
    match late, inside, text with
    | [], _, _ => exact ⟨[], by rw [mark, List.append_nil, List.append_nil], rfl⟩
    | [_], _, text =>
        -- The last slash of the mark could only be followed by what is written behind it.
        injection text with _ follows
        rw [show written = c :: rest from follows, List.takeWhile_cons_of_pos path_c] at stops
        cases stops
    | _ :: _ :: _, inside, text =>
        injection text with slash others
        injection others with next _
        exact absurd ⟨congrArg some slash, by simp [next, path_c]⟩ (none_starts _ inside)

/-- Where no run begins in what is read, none does in what is written. -/
theorem stops_of_swept (swept : Swept pathRule s t) (stops : s.takeWhile isPathChar = []) :
    t.takeWhile isPathChar = [] := List.prefix_nil.mp (stops ▸ run_of_swept swept)

/-- No path that leads into a credential directory is left. -/
theorem not_leadsIn_of_swept (swept : Swept pathRule s t) {before path : List Char}
    (split : t = before ++ path) : ¬ LeadsIn path := by
  induction swept generalizing before with
  | nil =>
      intro leads
      obtain ⟨c, rest, text, -⟩ := leads.startsPath
      simp [text] at split
  | @copied c rest written passes onwards ih =>
      cases before with
      | nil =>
          intro leads
          have whole : LeadsIn (c :: written) := by rwa [split]
          exact pathRule_eq_none_iff.mp passes (whole.of_run (prefix_of_swept (.copied passes onwards)))
      | cons d before =>
          injection split with _ split
          exact ih split
  | replaced _ applies onwards ih =>
      intro leads
      obtain ⟨rfl, -, stops, -⟩ := covers_of_pathRule applies
      obtain ⟨behind, -, later⟩ :=
        exists_of_append_eq_pathMark leads.startsPath (stops_of_swept onwards stops) split
      exact ih later leads

/-- No path that leads into a credential directory begins at a place, or in front of it in the same run. -/
def IsUnreached (before path : List Char) : Prop :=
  ∀ early lead, before = early ++ lead → (∀ c ∈ lead, isPathChar c = true) → ¬ LeadsIn (lead ++ path)

namespace IsUnreached

variable {c : Char} {before path : List Char}

theorem suffix {front : List Char} (unreached : IsUnreached (front ++ before) path) :
    IsUnreached before path :=
  fun early lead split run => unreached (front ++ early) lead (by rw [split, List.append_assoc]) run

theorem tail (unreached : IsUnreached (c :: before) path) : IsUnreached before path :=
  @suffix before path [c] unreached

theorem cons (unreached : IsUnreached before path) (none_here : ¬ LeadsIn (c :: (before ++ path))) :
    IsUnreached (c :: before) path := by
  intro early lead split run
  cases early with
  | nil =>
      rw [List.nil_append] at split
      rwa [← split]
  | cons d early =>
      injection split with _ split
      exact unreached early lead split run

/-- A run that ends in front of a text does not reach a place in it. -/
theorem append {front : List Char} (unreached : IsUnreached before path) (starts : StartsPath path)
    (stops : (before ++ path).takeWhile isPathChar = []) : IsUnreached (front ++ before) path := by
  intro early lead same run
  rcases List.append_eq_append_iff.mp same with ⟨between, rfl, follows⟩ | ⟨inside, rfl, rfl⟩
  · exact unreached between lead follows run
  · obtain ⟨c, rest, rfl, -⟩ := starts
    rw [List.takeWhile_append_of_pos fun d member => run d (List.mem_append_right inside member),
      List.takeWhile_cons_of_pos isPathChar_slash] at stops
    simp at stops

end IsUnreached

/-- A path that begins right in front of the slash of a credential directory leads no further than one that
begins there. -/
theorem Enters.leadsIn_of_cons (enters : Enters s) (leads : LeadsIn ('/' :: s)) : LeadsIn s := by
  obtain ⟨lead, path, split, nonempty, run, enters_path⟩ := leads
  injection split with _ split
  obtain ⟨c, between, rfl⟩ := List.exists_cons_of_ne_nil nonempty
  obtain ⟨d, rest, rfl, -⟩ := enters.startsPath
  injection split with same follows
  subst same
  refine ⟨between, path, congrArg _ follows, ?_, (List.forall_mem_cons.mp run).2, enters_path⟩
  rintro rfl
  obtain ⟨e, later, rfl, -⟩ := enters_path.startsPath
  injection follows with slash _
  exact enters.ne_slash slash

/-- A directory is not covered if no path that leads in reaches it. -/
theorem isUncovered_iff {before path : List Char} (enters : Enters path) :
    IsUncovered before path ↔ IsUnreached before path := by
  constructor
  · rintro ⟨none_behind, none_before⟩ early lead rfl run leads
    cases lead with
    | nil => exact none_behind leads
    | cons c between =>
        obtain ⟨d, rest, text, -⟩ := leads.startsPath
        injection text with slash _
        subst slash
        by_cases apart : between = []
        · subst apart
          exact none_behind (enters.leadsIn_of_cons leads)
        · exact none_before between apart (List.forall_mem_cons.mp run).2 (List.suffix_append early _)
  · intro unreached
    refine ⟨unreached before [] (List.append_nil before).symm (by simp), ?_⟩
    rintro between apart run ⟨early, rfl⟩
    refine unreached early ('/' :: between) rfl (List.forall_mem_cons.mpr ⟨isPathChar_slash, run⟩) ?_
    exact ⟨between, path, rfl, apart, run, enters⟩

/-- A credential directory that is written was read where no path covers it. -/
theorem exists_unreached_of_swept (swept : Swept pathRule s t) (shows : ShowsCredentials t) :
    ∃ before path, s = before ++ path ∧ Enters path ∧ IsUnreached before path := by
  obtain ⟨written_before, path, split, enters⟩ := shows
  induction swept generalizing written_before with
  | nil =>
      obtain ⟨c, rest, rfl, -⟩ := enters.startsPath
      simp at split
  | @copied c rest written passes onwards ih =>
      have none_here := pathRule_eq_none_iff.mp passes
      cases written_before with
      | nil =>
          have whole : Enters (c :: written) := by rwa [split]
          refine ⟨[], c :: rest, rfl, whole.of_run (prefix_of_swept (.copied passes onwards)), ?_⟩
          intro early lead same _
          obtain ⟨rfl, rfl⟩ := List.nil_eq_append_iff.mp same
          exact none_here
      | cons d written_before =>
          injection split with _ split
          obtain ⟨before, late, rfl, enters_late, unreached⟩ := ih written_before split
          exact ⟨c :: before, late, rfl, enters_late, unreached.cons none_here⟩
  | @replaced covered rest _ _ _ applies onwards ih =>
      obtain ⟨rfl, -, stops, -⟩ := covers_of_pathRule applies
      obtain ⟨behind, -, later⟩ :=
        exists_of_append_eq_pathMark enters.startsPath (stops_of_swept onwards stops) split
      obtain ⟨before, late, rfl, enters_late, unreached⟩ := ih behind later
      exact ⟨covered ++ before, late, by rw [List.append_assoc], enters_late,
        unreached.append enters_late.startsPath stops⟩

/-- A directory that no path reaches is still shown. -/
theorem showsCredentials_of_unreached (swept : Swept pathRule s t) {before path : List Char}
    (split : s = before ++ path) (enters : Enters path) (unreached : IsUnreached before path) :
    ShowsCredentials t := by
  induction swept generalizing before with
  | nil =>
      obtain ⟨c, rest, rfl, -⟩ := enters.startsPath
      simp at split
  | @copied c rest written passes onwards ih =>
      cases before with
      | nil =>
          rw [List.nil_append] at split
          subst split
          refine ⟨[], c :: written, rfl, enters.of_run (run_copied_of_swept (.copied passes onwards) ?_)⟩
          exact fun _ _ => enters.startsPath.not_leadsIn (pathRule_eq_none_iff.mp passes)
      | cons d before =>
          injection split with _ split
          obtain ⟨early, late, rfl, enters_late⟩ := ih split unreached.tail
          exact ⟨c :: early, late, rfl, enters_late⟩
  | @replaced covered rest _ _ _ applies onwards ih =>
      obtain ⟨rfl, run, -, leads⟩ := covers_of_pathRule applies
      rcases List.append_eq_append_iff.mp split with ⟨between, rfl, same⟩ | ⟨inside, same, rfl⟩
      · obtain ⟨early, late, rfl, enters_late⟩ := ih same unreached.suffix
        exact ⟨pathMark ++ early, late, by rw [List.append_assoc], enters_late⟩
      · -- The place is covered, so that the rule applies in front of it, in the same run.
        rw [split] at leads
        refine absurd leads (unreached [] before rfl fun c member => run c ?_)
        rw [same]
        exact List.mem_append_left inside member

end Course

theorem swept_pathRule (s : List Char) : Swept pathRule s (sweep pathRule s) :=
  swept_sweep isBounded_pathRule s

/-- No path that leads into a credential directory is left. -/
theorem not_leadsIn_redact {s before path : List Char} (split : redact s = before ++ path) :
    ¬ LeadsIn path := not_leadsIn_of_swept (swept_pathRule _) split

/-- A text that is short enough is not cut. -/
theorem sanitize_of_fits {m : String} (whole : byteLength (redact m.toList) ≤ byteLimit) :
    (sanitize m).toList = redact m.toList := by
  rw [sanitize, String.toList_ofList, sanitizeChars, cap, if_neg (Nat.not_lt.mpr whole)]

/-- A text that was made safe and not cut still shows a credential directory if and only if the text, with
its secrets replaced, enters one at a place that is not part of a path that leads there: in front of it, in the
same run of characters of paths, there is no slash, or only one that is right before it, and no further
credential directory stands behind it in the run.  What is left of a path then begins with the credential
directory: no path leads into one any more. -/
theorem credentials_shown_iff_uncovered (m : String)
    (whole : byteLength (redact m.toList) ≤ byteLimit) :
    (ShowsCredentials (sanitize m).toList ↔
        ∃ before path, sweep secretRule m.toList = before ++ path ∧ Enters path ∧
          IsUncovered before path) ∧
      ∀ before path, (sanitize m).toList = before ++ path → ¬ LeadsIn path := by
  rw [sanitize_of_fits whole]
  have swept : Swept pathRule (sweep secretRule m.toList) (redact m.toList) := swept_pathRule _
  refine ⟨⟨fun shows => ?_, ?_⟩, fun _ _ => not_leadsIn_redact⟩
  · obtain ⟨before, path, split, enters, unreached⟩ := exists_unreached_of_swept swept shows
    exact ⟨before, path, split, enters, (isUncovered_iff enters).mpr unreached⟩
  · rintro ⟨before, path, split, enters, uncovered⟩
    exact showsCredentials_of_unreached swept split enters ((isUncovered_iff enters).mp uncovered)

theorem enters_ssh : Enters "/.ssh/id_rsa".toList :=
  ⟨".ssh".toList, by decide, 'i', "d_rsa".toList, by decide, by decide⟩

/-- One path is replaced, the other is not. -/
theorem one_of_two_directories_shown :
    byteLength (redact "cannot open ~/.ssh/id_rsa or /srv/relay/.ssh/id_rsa".toList) ≤ byteLimit ∧
      sanitize "cannot open ~/.ssh/id_rsa or /srv/relay/.ssh/id_rsa" =
        "cannot open ~/.ssh/id_rsa or /***REDACTED***/" ∧
      ShowsCredentials (sanitize "cannot open ~/.ssh/id_rsa or /srv/relay/.ssh/id_rsa").toList := by
  have fits :
      byteLength (redact "cannot open ~/.ssh/id_rsa or /srv/relay/.ssh/id_rsa".toList) ≤ byteLimit := by
    decide +kernel
  refine ⟨fits, by decide +kernel, (credentials_shown_iff_uncovered _ fits).1.mpr ?_⟩
  refine ⟨"cannot open ~".toList, "/.ssh/id_rsa or /srv/relay/.ssh/id_rsa".toList, by decide +kernel,
    enters_ssh.of_run (by decide +kernel), pathRule_eq_none_iff.mp (by decide +kernel), ?_⟩
  intro between _ _ slash_before
  have no_slash : '/' ∉ "cannot open ~".toList := by decide +kernel
  exact no_slash (slash_before.subset List.mem_cons_self)

/-- The home directory of a user is reported as `~`, with the path behind it. -/
theorem home_directory_is_reported :
    sanitize "cannot open ~/.ssh/id_rsa" = "cannot open ~/.ssh/id_rsa" ∧
      ¬ ∀ m : String, byteLength (redact m.toList) ≤ byteLimit → ¬ ShowsCredentials (sanitize m).toList := by
  have stays : sanitize "cannot open ~/.ssh/id_rsa" = "cannot open ~/.ssh/id_rsa" := by decide +kernel
  refine ⟨stays, fun always => always "cannot open ~/.ssh/id_rsa" (by decide +kernel) ?_⟩
  exact ⟨"cannot open ~".toList, "/.ssh/id_rsa".toList, by rw [stays]; decide +kernel, enters_ssh⟩

end Redaction

end Intake
