/-
Module: Intake.Proofs.Message.Items
Purpose: Which items become contexts, and what they become.
Main exports: Json.IsDocument, Item.StandsFor, Item.BecomesContext, Item.toContext_accepts

Two forms of a body are tried in turn.  A text that looks like a document up to its last character, and then goes on,
nests too deep or holds a number or a string without a value, is kept as it is.
-/
import Intake.Message.Item
import Intake.Proofs.Json.Grammar
import Intake.Proofs.Text.Utf8

namespace Intake

namespace Json

/-- A text that is one document: well formed, with a value in every part, and not nested too deep. -/
def IsDocument (s : List Char) (value : Json) : Prop :=
  ∃ w, IsWritten s w ∧ w.value? depthLimit = some value

theorem readChars?_eq_some_iff {s : List Char} {value : Json} : readChars? s = some value ↔ IsDocument s value := by
  rw [readChars?, Option.bind_eq_some_iff]
  exact exists_congr fun w => and_congr_left' readWritten?_eq_some_iff

end Json

namespace Item

/-- What a text is handed on as: the value of the document that it is, or else the text itself. -/
inductive StandsFor : String → Json → Prop where
  | document {text : String} {value : Json} (h : Json.IsDocument text.toList value) : StandsFor text value
  | plain {text : String} (none : ∀ value, ¬ Json.IsDocument text.toList value) : StandsFor text (.string text)

/-- Every text stands for its payload. -/
theorem standsFor_payloadOfText (text : String) : StandsFor text (payloadOfText text.toList) := by
  rw [payloadOfText]
  split
  · next value read => exact .document (Json.readChars?_eq_some_iff.mp read)
  · next unread =>
      rw [String.ofList_toList]
      refine .plain fun value document => ?_
      rw [Json.readChars?_eq_some_iff.mpr document] at unread
      cases unread

/-- A text stands for one value only. -/
theorem StandsFor.eq_payloadOfText {text : String} {value : Json} (h : StandsFor text value) :
    value = payloadOfText text.toList := by
  rw [payloadOfText]
  cases h with
  | document document => rw [Json.readChars?_eq_some_iff.mpr document]
  | plain none =>
      split
      · next value read => exact absurd (Json.readChars?_eq_some_iff.mp read) (none value)
      · rw [String.ofList_toList]

/-- A body has a payload exactly if it is a text. -/
theorem payload_eq_ok_iff {body : Bytes} {value : Json} :
    payload body = .ok value ↔ ∃ text, Utf8.bytesOf text = body ∧ payloadOfText text.toList = value := by
  rw [payload]
  constructor
  · intro made
    cases decoded : Utf8.decode body with
    | error e =>
        rw [decoded] at made
        cases made
    | ok chars =>
        rw [decoded] at made
        refine ⟨String.ofList chars, ?_, ?_⟩
        · rw [Utf8.bytesOf_ofList, Utf8.decode_eq_ok_iff.mp decoded]
        · rw [String.toList_ofList]
          exact Except.ok.inj made
  · rintro ⟨text, rfl, rfl⟩
    rw [Utf8.bytesOf, Utf8.decode_eq_ok_iff.mpr rfl]
    rfl

/-- What an item becomes: everything it came with, under its own identifier if it has one. -/
structure BecomesContext (item : Item) (pipeline freshId : String) (context : Context) : Prop where
  pipeline : context.pipeline = pipeline
  receivedId : context.receivedId = some (item.messageId.getD freshId)
  sendingId : context.sendingId = none
  result : context.result = none
  payload : ∃ text, Utf8.bytesOf text = item.body ∧ StandsFor text context.payload
  source : context.property? sourceProperty = some item.source
  properties : ∀ key, key ≠ sourceProperty → context.property? key = item.properties.find? key

/-- Two ways to be refused, and one to be accepted. -/
theorem toContext_cases (pipeline freshId : String) (item : Item) :
    ((item.body = [] ∨ ∀ text, Utf8.bytesOf text ≠ item.body) ∧
        ∃ reason, item.toContext pipeline freshId = .error (.transformFailed reason)) ∨
      item.body ≠ [] ∧ ∃ context, item.toContext pipeline freshId = .ok context ∧
        item.BecomesContext pipeline freshId context := by
  rw [toContext]
  split
  · next empty => exact .inl ⟨.inl empty, _, rfl⟩
  · next some =>
      split
      · next e unread =>
          refine .inl ⟨.inr fun text same => ?_, _, rfl⟩
          rw [payload_eq_ok_iff.mpr ⟨text, same, rfl⟩] at unread
          cases unread
      · next value made =>
          obtain ⟨text, same, rfl⟩ := payload_eq_ok_iff.mp made
          refine .inr ⟨some, _, rfl, rfl, rfl, rfl, rfl, ⟨text, same, standsFor_payloadOfText text⟩, ?_, ?_⟩
          · rw [Context.property?, Table.find?_put, if_pos rfl]
          · intro key other
            rw [Context.property?, Table.find?_put, if_neg other]

/-- Exactly the items with a body that is a text and not empty are accepted, and nothing of an accepted one is lost. -/
theorem toContext_accepts (pipeline freshId : String) (item : Item) :
    ((∃ fault, item.toContext pipeline freshId = .error fault) ↔
        item.body = [] ∨ ∀ text, Utf8.bytesOf text ≠ item.body) ∧
      (∀ fault, item.toContext pipeline freshId = .error fault → ∃ reason, fault = .transformFailed reason) ∧
      ∀ context, item.toContext pipeline freshId = .ok context → item.BecomesContext pipeline freshId context := by
  obtain ⟨unfit, reason, refused⟩ | ⟨some, context, accepted, becomes⟩ := toContext_cases pipeline freshId item
  · rw [refused]
    refine ⟨iff_of_true ⟨_, rfl⟩ unfit, ?_, nofun⟩
    rintro fault ⟨⟩
    exact ⟨reason, rfl⟩
  · rw [accepted]
    refine ⟨iff_of_false (by rintro ⟨fault, ⟨⟩⟩) ?_, nofun, ?_⟩
    · obtain ⟨text, same, -⟩ := becomes.payload
      rintro (empty | other)
      · exact some empty
      · exact other text same
    · rintro context ⟨⟩
      exact becomes

/-- A document but for half of a surrogate pair in it is kept as it was written. -/
theorem broken_document_is_text :
    let text := "[1e2, \"\\ud83d\"] "
    let item : Item := ⟨"http", none, Utf8.bytesOf text, .empty⟩
    ∃ context, item.toContext "receive" "id-1" = .ok context ∧ context.payload = .string text ∧
      context.receivedId = some "id-1" ∧ context.property? "source" = some "http" := by
  intro text item
  obtain ⟨refused, -, accepted⟩ := toContext_accepts "receive" "id-1" item
  have fit : ¬ ∃ fault, item.toContext "receive" "id-1" = .error fault := by
    rw [refused]
    rintro (empty | other)
    · exact absurd empty (by decide)
    · exact other text rfl
  cases made : item.toContext "receive" "id-1" with
  | error fault => exact absurd ⟨fault, made⟩ fit
  | ok context =>
      have becomes := accepted context made
      refine ⟨context, rfl, ?_, becomes.receivedId, becomes.source⟩
      obtain ⟨text', same, stands⟩ := becomes.payload
      obtain rfl := Utf8.bytesOf_inj same
      have unread : Json.readChars? text.toList = none := Option.isNone_iff_eq_none.mp (by decide +kernel)
      rw [stands.eq_payloadOfText, payloadOfText, unread, String.ofList_toList]

end Item

end Intake
