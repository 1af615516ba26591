/-
Module: Intake.Proofs.Http.Correlation
Purpose: The identifiers under which submitted messages are filed when they fail.
Main exports: Http.Request.SendsBlankId, Http.Handler.correlation_of_submission, Http.Handler.blank_ids_are_merged

A sender may leave the identifier out, write something that is no text, write nothing but blanks, or write it more
than once.  Only the first two are answered with a fresh identifier: blanks are trimmed away, and what is left counts
as an identifier.
-/
import Intake.Http.Submission
import Intake.Proofs.Agent.Desk
import Intake.Proofs.Message.Items

namespace Intake

namespace Http

/-! ### Blanks in headers

An identifier is trimmed after it was read as a text.  It becomes empty exactly if nothing but spaces and tabs
were sent. -/

/-- The first header with an identifier, as it was sent. -/
def Request.sentId? (request : Request) : Option Bytes :=
  (request.headers.find? fun h => asciiEqIgnoreCase h.1 messageIdHeader).map Prod.snd

/-- The identifier that was sent is empty, or made of spaces and tabs. -/
def Request.SendsBlankId (request : Request) : Prop :=
  ∃ value ∈ request.sentId?, ∀ b ∈ value, b = 0x20 ∨ b = 0x09

/-- The identifier is the first header of its name, if it is a text. -/
theorem header?_messageId (request : Request) :
    request.header? messageIdHeader = request.sentId?.bind headerText? := by
  rw [Request.header?, Request.sentId?, Option.bind_map]
  rfl

/-- Spaces and tabs can be read. -/
theorem isReadable_of_blank {b : UInt8} (blank : b = 0x20 ∨ b = 0x09) : isReadable b = true := by
  rcases blank with rfl | rfl <;> decide

/-- Among the bytes that can be read, only spaces and tabs are white space. -/
theorem isBlank_iff_of_isReadable {b : UInt8} (readable : isReadable b = true) :
    isBlank (Char.ofNat b.toNat) = true ↔ b = 0x20 ∨ b = 0x09 := by
  have all : ∀ n < 256, isReadable (UInt8.ofNat n) = true →
      (isBlank (Char.ofNat (UInt8.ofNat n).toNat) = true ↔ UInt8.ofNat n = 0x20 ∨ UInt8.ofNat n = 0x09) := by
    decide +kernel
  have same : UInt8.ofNat b.toNat = b := UInt8.ofNat_toNat
  have own := all b.toNat b.toNat_lt
  rw [same] at own
  exact own readable

/-- Trimming leaves nothing of blanks, and of nothing else. -/
theorem trim_eq_empty_iff {s : String} : trim s = "" ↔ ∀ c ∈ s.toList, isBlank c = true := by
  rw [trim, ← trimChars_eq_nil_iff, ← String.toList_inj, String.toList_ofList]
  rfl

/-- An identifier is blank as a text exactly if it is blank as it was sent. -/
theorem trim_headerText?_iff {value : Bytes} :
    (headerText? value).map trim = some "" ↔ ∀ b ∈ value, b = 0x20 ∨ b = 0x09 := by
  rw [headerText?]
  split
  · next readable =>
      rw [List.all_eq_true] at readable
      rw [Option.map_some, Option.some.injEq, trim_eq_empty_iff, String.toList_ofList, List.forall_mem_map]
      exact forall₂_congr fun b member => isBlank_iff_of_isReadable (readable b member)
  · next unreadable =>
      refine iff_of_false (by simp) fun blank => unreadable ?_
      exact List.all_eq_true.mpr fun b member => isReadable_of_blank (blank b member)

namespace Handler

/-- The item carries the identifier without the blanks around it. -/
theorem messageId_submittedItem (source : String) (request : Request) :
    (submittedItem source request).messageId = (request.header? messageIdHeader).map trim := rfl

/-- It is empty exactly if a blank one was sent. -/
theorem messageId_eq_empty_iff (source : String) {request : Request} :
    (submittedItem source request).messageId = some "" ↔ request.SendsBlankId := by
  rw [messageId_submittedItem, header?_messageId, Request.SendsBlankId]
  cases request.sentId? with
  | none => simp
  | some value =>
      rw [Option.bind_some, trim_headerText?_iff]
      simp

theorem exists_ok_of_isSome {ε α : Type} {x : Except ε α} (h : x.toOption.isSome = true) : ∃ a, x = .ok a := by
  cases x with
  | error e => cases h
  | ok a => exact ⟨a, rfl⟩

/-- Contexts carry the identifier of their item, or the fresh one. -/
theorem correlationId?_toContext {pipeline freshId : String} {item : Item} {context : Context}
    (accepted : item.toContext pipeline freshId = .ok context) :
    context.correlationId? = some (item.messageId.getD freshId) := by
  obtain ⟨-, reason, refused⟩ | ⟨-, made, same, becomes⟩ := Item.toContext_cases pipeline freshId item
  · rw [accepted] at refused
    cases refused
  · rw [accepted] at same
    cases same
    rw [Context.correlationId?, becomes.receivedId, Option.some_or]

/-- What is handed over with a context is filed under its identifier. -/
theorem filed_of_context {d : Agent.Delegation} {context : Context} {id : String} (known : d.context = some context)
    (own : context.correlationId? = some id) : d.correlationId? = some id ∧ d.record.correlationId = id := by
  have filed : d.correlationId? = some id := by
    rw [Agent.Delegation.correlationId?, known, Option.bind_some, own]
  refine ⟨filed, ?_⟩
  show d.correlationId?.getD unknownCorrelationId = id
  rw [filed, Option.getD_some]

/-- A message that was submitted and accepted has an identifier, which is empty exactly if the sender sent a blank
one, and fresh if the sender sent none that can be read.  A fault that is handed over with its context is recorded
and marked under this identifier. -/
theorem correlation_of_submission (source path pipeline freshId : String) (items : ItemHandler) (request : Request)
    (item : Item) (context : Context) (submitted : item ∈ ((submit source path items).handle request).items)
    (accepted : item.toContext pipeline freshId = .ok context) (fresh : freshId ≠ "") :
    ∃ id, context.correlationId? = some id ∧ (id = "" ↔ request.SendsBlankId) ∧
      (request.header? messageIdHeader = none → id = freshId) ∧
      ∀ d : Agent.Delegation, d.context = some context → d.record.correlationId = id ∧
        ∀ s : ExceptionStore, s.readOnly = false → id ∈ (s.takeOver d).retries := by
  have made : item = submittedItem source request := by
    simp only [submit] at submitted
    split at submitted
    · cases submitted
    · exact List.mem_singleton.mp submitted
  have own := correlationId?_toContext accepted
  refine ⟨_, own, ?_, fun unsent => ?_, fun d known => ?_⟩
  · rw [← messageId_eq_empty_iff source, ← made]
    cases item.messageId with
    | none => simp [fresh]
    | some id => simp
  · rw [made, messageId_submittedItem, unsent]
    rfl
  · obtain ⟨filed, recorded⟩ := filed_of_context known own
    refine ⟨recorded, fun s writable => ?_⟩
    rw [ExceptionStore.takeOver_eq writable]
    exact ExceptionStore.mem_marked.mpr (.inr filed)

/-- An identifier that is no text hides the one behind it, and a fresh one takes its place. -/
theorem unreadable_id_is_replaced :
    let request : Request :=
      ⟨.post, "/messages", none, [("MESSAGE-ID", [0xC3, 0xBC]), ("message-id", Utf8.bytesOf "m-1")],
        Utf8.bytesOf "payload", "10.0.0.7:4711"⟩
    let item := submittedItem "http" request
    item ∈ ((submit "http" "/messages" .accepting).handle request).items ∧
      ∃ context, item.toContext "receive" "id-1" = .ok context ∧ context.correlationId? = some "id-1" ∧
        ¬ request.SendsBlankId := by
  intro request item
  have submitted : item ∈ ((submit "http" "/messages" .accepting).handle request).items := List.mem_singleton_self _
  have unsent : request.header? messageIdHeader = none := by decide +kernel
  obtain ⟨context, accepted⟩ : ∃ context, item.toContext "receive" "id-1" = .ok context :=
    exists_ok_of_isSome (by decide +kernel)
  obtain ⟨id, own, empty, fresh, -⟩ :=
    correlation_of_submission _ _ "receive" "id-1" _ request item context submitted accepted (by decide)
  obtain rfl := fresh unsent
  exact ⟨submitted, context, accepted, own, fun blank => absurd (empty.mpr blank) (by decide)⟩

/-- Two messages whose identifiers are made of blanks: both have the empty identifier, and when both fail there are
two records under it and a single mark. -/
theorem blank_ids_are_merged :
    let request (body : String) : Request :=
      ⟨.post, "/messages", none, [("Message-ID", [0x20, 0x20])], Utf8.bytesOf body, "10.0.0.7:4711"⟩
    let item (body : String) := submittedItem "http" (request body)
    let handedOver (context : Context) : Agent.Delegation :=
      ⟨"intake", .normal, .stepFailed "sign" "no key", some context⟩
    (∀ body ∈ ["one", "two"],
      item body ∈ ((submit "http" "/messages" .accepting).handle (request body)).items) ∧
    ∃ first second, (item "one").toContext "receive" "id-1" = .ok first ∧
      (item "two").toContext "receive" "id-2" = .ok second ∧
      first.correlationId? = some "" ∧ second.correlationId? = some "" ∧
      let store := (ExceptionStore.empty.takeOver (handedOver first)).takeOver (handedOver second)
      store.records.map (·.correlationId) = ["", ""] ∧ store.retries = [""] := by
  intro request item handedOver
  have blank (body : String) : (item body).messageId = some "" :=
    (messageId_eq_empty_iff "http").mpr ⟨[0x20, 0x20], rfl, by simp⟩
  obtain ⟨first, accepted⟩ : ∃ context, (item "one").toContext "receive" "id-1" = .ok context :=
    exists_ok_of_isSome (by decide +kernel)
  obtain ⟨second, accepted'⟩ : ∃ context, (item "two").toContext "receive" "id-2" = .ok context :=
    exists_ok_of_isSome (by decide +kernel)
  have own : first.correlationId? = some "" := by rw [correlationId?_toContext accepted, blank, Option.getD_some]
  have own' : second.correlationId? = some "" := by rw [correlationId?_toContext accepted', blank, Option.getD_some]
  obtain ⟨filed, recorded⟩ := filed_of_context (d := handedOver first) rfl own
  obtain ⟨filed', recorded'⟩ := filed_of_context (d := handedOver second) rfl own'
  refine ⟨?_, first, second, accepted, accepted', own, own', ?_⟩
  · intro body member
    rcases List.mem_cons.mp member with rfl | last
    · exact List.mem_singleton_self _
    · obtain rfl := List.mem_singleton.mp last
      exact List.mem_singleton_self _
  · have once := ExceptionStore.takeOver_eq (s := .empty) (d := handedOver first) rfl
    rw [once, ExceptionStore.takeOver_eq (by rfl), filed, filed']
    simp only [ExceptionStore.empty, List.nil_append, List.map_append, List.map_cons, List.map_nil, recorded,
      recorded']
    decide

end Handler

end Http

end Intake
