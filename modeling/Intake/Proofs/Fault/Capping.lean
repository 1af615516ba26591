/-
Module: Intake.Proofs.Fault.Capping
Purpose: Everything that is reported about a fault is a text of bounded length.
Main exports: Redaction.isBoundary_iff, Redaction.search?_eq, Redaction.near_boundaryBelow,
  Redaction.capped_cap, Redaction.capped_sanitizedMessage, Redaction.reports_are_capped

A character has four bytes at most, so that of four places in a row one is a boundary.  The search for the
place of a cut finds it, long before it could come to zero.
-/
import Intake.Fault.Cut
import Intake.Proofs.Agent.Desk
import Intake.Proofs.Fault.Sweep
import Intake.Proofs.Http.Submissions
import Intake.Proofs.Pipeline.Fate
import Intake.Proofs.Text.Utf8

namespace Intake

namespace Redaction

/-! ### Boundaries

A text may be cut only between two of its characters.  Going down from any place in it, such a boundary is met
after three bytes at most. -/

theorem length_encode (s : List Char) : (Utf8.encode s).length = byteLength s := by
  induction s with
  | nil => rfl
  | cons c s ih =>
      rw [Utf8.encode_cons, List.length_append, String.length_utf8EncodeChar, ih, byteLength]

/-- A boundary is where a beginning of the text ends. -/
theorem isBoundary_iff {s : List Char} {n : Nat} :
    isBoundary s n = true ↔ ∃ kept, kept <+: s ∧ byteLength kept = n := by
  constructor
  · intro boundary
    induction s generalizing n with
    | nil =>
        cases n with
        | zero => exact ⟨[], List.nil_prefix, rfl⟩
        | succ n => cases boundary
    | cons c s ih =>
        cases n with
        | zero => exact ⟨[], List.nil_prefix, rfl⟩
        | succ n =>
            rw [isBoundary, Bool.and_eq_true, decide_eq_true_iff] at boundary
            obtain ⟨kept, begins, length⟩ := ih boundary.2
            refine ⟨c :: kept, List.cons_prefix_cons.mpr ⟨rfl, begins⟩, ?_⟩
            rw [byteLength, length]
            exact Nat.add_sub_cancel' boundary.1
  · rintro ⟨kept, ⟨rest, rfl⟩, rfl⟩
    exact isBoundary_byteLength kept rest

/-- The place that is found is a boundary. -/
theorem isBoundary_boundaryBelow (s : List Char) (n : Nat) :
    isBoundary s (boundaryBelow s n) = true := by
  induction n with
  | zero => rw [boundaryBelow, isBoundary]
  | succ n ih =>
      rw [boundaryBelow]
      split
      · assumption
      · exact ih

/-- The place that is found is not above the one that was asked for. -/
theorem boundaryBelow_le (s : List Char) (n : Nat) : boundaryBelow s n ≤ n := by
  induction n with
  | zero => exact Nat.le_refl 0
  | succ n ih =>
      rw [boundaryBelow]
      split
      · exact Nat.le_refl _
      · exact Nat.le_succ_of_le ih

/-- The search finds the last boundary, and each step down is one byte. -/
theorem search?_eq (s : List Char) (n : Nat) :
    search? s n = some (boundaryBelow s n, n - boundaryBelow s n) := by
  induction n with
  | zero => rw [search?, boundaryBelow, isBoundary, if_pos rfl]
  | succ n ih =>
      rw [search?, boundaryBelow]
      split
      · rw [Nat.sub_self]
      · rw [ih, Option.map_some, Nat.succ_sub (boundaryBelow_le s n)]

/-- Of four places in a row within a text, one is a boundary. -/
theorem exists_boundary {s : List Char} {n : Nat} (within : n ≤ byteLength s) :
    ∃ m, isBoundary s m = true ∧ m ≤ n ∧ n ≤ m + 3 := by
  induction s generalizing n with
  | nil => exact ⟨0, by rw [isBoundary], Nat.zero_le n, Nat.le_add_right_of_le within⟩
  | cons c s ih =>
      have size : c.utf8Size ≤ 4 := c.utf8Size_le_four
      rcases Nat.lt_or_ge n c.utf8Size with inside | behind
      · exact ⟨0, by rw [isBoundary], Nat.zero_le n, by omega⟩
      · rw [byteLength] at within
        obtain ⟨m, boundary, below, near⟩ := ih (Nat.sub_le_iff_le_add'.mpr within)
        obtain ⟨kept, begins, length⟩ := isBoundary_iff.mp boundary
        refine ⟨c.utf8Size + m, ?_, by omega, by omega⟩
        refine isBoundary_iff.mpr ⟨c :: kept, List.cons_prefix_cons.mpr ⟨rfl, begins⟩, ?_⟩
        rw [byteLength, length]

/-- The boundary that is found is at most three bytes below. -/
theorem near_boundaryBelow {s : List Char} {n : Nat} (within : n ≤ byteLength s) :
    n ≤ boundaryBelow s n + 3 := by
  obtain ⟨m, boundary, below, near⟩ := exists_boundary within
  exact Nat.le_trans near (Nat.add_le_add_right (le_boundaryBelow boundary below) 3)

/-! ### The cut

What is kept of a text is the longest beginning that fits, and ends with a whole character. -/

/-- What is kept of a text is a beginning of it. -/
theorem takeBytes_prefix (n : Nat) (s : List Char) : takeBytes n s <+: s := by
  induction s generalizing n with
  | nil => exact List.nil_prefix
  | cons c s ih =>
      rw [takeBytes]
      split
      · exact List.cons_prefix_cons.mpr ⟨rfl, ih _⟩
      · exact List.nil_prefix

/-- What is kept has no more bytes than it may. -/
theorem byteLength_takeBytes_le (n : Nat) (s : List Char) : byteLength (takeBytes n s) ≤ n := by
  induction s generalizing n with
  | nil => exact Nat.zero_le n
  | cons c s ih =>
      rw [takeBytes]
      split
      · next fits =>
          have rest := ih (n - c.utf8Size)
          rw [byteLength]
          omega
      · exact Nat.zero_le n

/-- Cut at a boundary, a text has exactly as many bytes. -/
theorem byteLength_takeBytes {s : List Char} {n : Nat} (boundary : isBoundary s n = true) :
    byteLength (takeBytes n s) = n := by
  obtain ⟨kept, ⟨rest, rfl⟩, rfl⟩ := isBoundary_iff.mp boundary
  obtain ⟨more, taken⟩ := prefix_takeBytes (Nat.le_refl (byteLength kept)) rest
  have bound := byteLength_takeBytes_le (byteLength kept) (kept ++ rest)
  rw [← taken, byteLength_append] at bound ⊢
  omega

/-- What is kept in front of the last boundary is the longest that fits. -/
theorem isLongestWithin_takeBytes (n : Nat) (s : List Char) :
    IsLongestWithin n s (takeBytes (boundaryBelow s n) s) where
  begins := takeBytes_prefix _ s
  fits := Nat.le_trans (byteLength_takeBytes_le _ s) (boundaryBelow_le s n)
  longest := by
    rintro other ⟨rest, rfl⟩ fits
    exact prefix_takeBytes (le_boundaryBelow (isBoundary_byteLength other rest) fits) rest

/-! ### What is reported

The message of a fault and all that is made of it go through the same cut. -/

theorem isReport_encode {s : List Char} (short : byteLength s ≤ 500) : IsReport (Utf8.encode s) where
  text := ⟨s, Utf8.decode_eq_ok_iff.mpr rfl⟩
  short := by rwa [length_encode]

/-- A text that is capped is whole, or cut with a mark behind it. -/
theorem capped_cap (whole : List Char) : Capped whole (cap whole) := by
  have limit : byteLimit = 500 := rfl
  have room : byteLimit - truncationMark.length = 486 := by decide
  rcases Nat.lt_or_ge 500 (byteLength whole) with long | short
  · have cut : cap whole = takeBytes (boundaryBelow whole 486) whole ++ truncationMark := by
      rw [cap, room, limit, if_pos long]
    have length : byteLength (takeBytes (boundaryBelow whole 486) whole) = boundaryBelow whole 486 :=
      byteLength_takeBytes (isBoundary_boundaryBelow whole 486)
    have below := boundaryBelow_le whole 486
    have near : 486 ≤ boundaryBelow whole 486 + 3 := near_boundaryBelow (by omega)
    refine ⟨?_, fun short => absurd long (Nat.not_lt.mpr short), fun _ => ?_⟩
    · have mark : byteLength truncationMark = 14 := by decide
      rw [cut]
      apply isReport_encode
      rw [byteLength_append, length, mark]
      omega
    · refine ⟨_, 486 - boundaryBelow whole 486, cut, isLongestWithin_takeBytes 486 whole, ?_, ?_, ?_⟩
      · rw [length, search?_eq]
      · omega
      · rw [length]
        omega
  · have same : cap whole = whole := by
      rw [cap, limit, if_neg (Nat.not_lt.mpr short)]
    rw [same]
    exact ⟨isReport_encode short, fun _ => rfl, fun long => absurd long (Nat.not_lt.mpr short)⟩

/-- The message of a fault is capped after its secrets are replaced. -/
theorem capped_sanitizedMessage (fault : Fault) :
    Capped (redact fault.message.toList) fault.sanitizedMessage.toList := by
  rw [Fault.sanitizedMessage, sanitize, String.toList_ofList]
  exact capped_cap _

theorem isReport_sanitizedMessage (fault : Fault) :
    IsReport (Utf8.bytesOf fault.sanitizedMessage) := (capped_sanitizedMessage fault).report

/-- Everything that is reported about a fault is a text of 500 bytes at most: the message of every record, of
those that guards offer and of those that a store is handed, the message of every detail, and the body of the
reply of a handler that failed.  The text is what redaction leaves, or the longest beginning of it that leaves
room for the mark. -/
theorem reports_are_capped {ι : Type u} :
    (∀ fault : Fault, Capped (redact fault.message.toList) fault.sanitizedMessage.toList) ∧
      (∀ side id source fault followUp,
        IsReport (Utf8.bytesOf (ExceptionRecord.ofFault side id source fault followUp).message)) ∧
      (∀ fault, IsReport (Utf8.bytesOf (Detail.ofFault fault).message)) ∧
      (∀ (node : Pipeline) c, ∀ offer ∈ Pipeline.offers (node.execute c).trace,
        IsReport (Utf8.bytesOf offer.record.message) ∧
          ∃ outcome detail, (node.execute c).result = .ok outcome ∧ outcome.fault = some detail ∧
            outcome.context.result = some detail ∧ IsReport (Utf8.bytesOf detail.message)) ∧
      (∀ visits : List (Agent.Visit ι), ∀ record ∈ (Agent.Desk.after visits).store.records,
        IsReport (Utf8.bytesOf record.message)) ∧
      ∀ (router : Http.Router) request place handler fault,
        (router.route request).ran = some (place, handler) →
          (handler.handle request).reply = .error fault →
            (router.route request).response.status = 500 ∧
              (router.route request).response.body = Utf8.bytesOf fault.sanitizedMessage ∧
              IsReport (router.route request).response.body := by
  refine ⟨capped_sanitizedMessage, fun _ _ _ fault _ => isReport_sanitizedMessage fault,
    isReport_sanitizedMessage, ?_, ?_, ?_⟩
  · intro node c offer offered
    cases Pipeline.execute_fate node c with
    | quiet _ none_offered =>
        rw [none_offered] at offered
        cases offered
    | escaped _ none_offered =>
        rw [none_offered] at offered
        cases offered
    | @absorbed path fault guard entry _ _ one_offered result =>
        rw [one_offered, List.mem_singleton] at offered
        rw [offered]
        exact ⟨isReport_sanitizedMessage fault, _, _, result, rfl, rfl,
          isReport_sanitizedMessage fault⟩
  · intro visits record stored
    rw [(Agent.Desk.kept_after visits).records] at stored
    obtain ⟨delegation, -, rfl⟩ := List.mem_map.mp stored
    exact isReport_sanitizedMessage delegation.fault
  · intro router request place handler fault ran failed
    obtain ⟨-, answer⟩ := Http.Router.route_of_ran router request ran
    rw [answer, failed, Http.Router.responseTo, Http.Response.text]
    dsimp only
    exact ⟨rfl, rfl, isReport_sanitizedMessage fault⟩

end Redaction

end Intake
