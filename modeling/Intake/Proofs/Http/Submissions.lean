/-
Module: Intake.Proofs.Http.Submissions
Purpose: Every request is served by one handler at most, and submissions hand their message over once.
Main exports: Http.isUnder_iff, Http.firstAccepting_eq_some_iff, Http.Router.ran_route_iff,
  Http.Receiver.submits_submittedItem, Http.Receiver.consulted_only, Http.Receiver.requests_served

Which handler runs is settled first, for every chain with the built-in handler in front.  What the built-in
handlers do is settled by the handlers alone.
-/
import Mathlib.Data.List.Basic
import Intake.Http.Serving

namespace Intake

namespace Http

/-! ### Paths

The path of a handler covers itself and what follows it behind a slash. -/

/-- What is left behind a beginning makes up the text with it. -/
theorem afterPrefix?_eq_some_iff {front s rest : List Char} :
    afterPrefix? front s = some rest ↔ s = front ++ rest := by
  induction front generalizing s with
  | nil => simp [afterPrefix?, eq_comm]
  | cons c front ih =>
      cases s with
      | nil => simp [afterPrefix?]
      | cons d s =>
          rw [afterPrefix?, List.cons_append, List.cons.injEq]
          by_cases same : c = d
          · rw [if_pos same, ih]
            simp [same]
          · rw [if_neg same]
            simp [Ne.symm same]

/-- The path that is looked for is one that is covered. -/
theorem isUnder_iff {base path : String} : isUnder base path = true ↔ Covers base path := by
  have split (rest : String) : path = base ++ rest ↔ path.toList = base.toList ++ rest.toList := by
    rw [← String.toList_inj, String.toList_append]
  constructor
  · intro under
    rw [isUnder] at under
    split at under
    · cases under
    · next rest found =>
        refine ⟨String.ofList rest, ?_, ?_⟩
        · rwa [split, String.toList_ofList, ← afterPrefix?_eq_some_iff]
        · rw [String.toList_ofList, ← String.toList_eq_nil_iff, String.toList_ofList]
          simp only [Bool.or_eq_true, List.isEmpty_iff, beq_iff_eq] at under
          tauto
  · rintro ⟨rest, whole, boundary⟩
    rw [split, ← afterPrefix?_eq_some_iff] at whole
    rw [← String.toList_eq_nil_iff] at boundary
    simp only [isUnder, whole, Bool.or_eq_true, List.isEmpty_iff, beq_iff_eq]
    tauto

/-! ### Chains

A request goes along a chain of handlers to the first that accepts it. -/

section

variable {request : Request} {chain rest : List Handler} {place start : Nat} {first handler : Handler}

/-- The first handler runs if it accepts the request. -/
theorem isFirst_cons_zero :
    IsFirst (first :: rest) request 0 handler ↔ handler = first ∧ first.accepts request = true := by
  simp only [IsFirst, List.getElem?_cons_zero, Option.some.injEq, Nat.not_lt_zero, false_imp_iff,
    implies_true, and_true]
  constructor
  · rintro ⟨rfl, accepts⟩
    exact ⟨rfl, accepts⟩
  · rintro ⟨rfl, accepts⟩
    exact ⟨rfl, accepts⟩

/-- Any other runs only if the first one does not accept it. -/
theorem isFirst_cons_succ : IsFirst (first :: rest) request (place + 1) handler ↔
    first.accepts request = false ∧ IsFirst rest request place handler := by
  constructor
  · rintro ⟨found, accepts, earlier⟩
    refine ⟨earlier 0 first (Nat.succ_pos place) rfl, found, accepts, ?_⟩
    exact fun before other less there => earlier (before + 1) other (Nat.succ_lt_succ less) there
  · rintro ⟨refuses, found, accepts, earlier⟩
    refine ⟨found, accepts, ?_⟩
    rintro (_ | before) other less there
    · cases there
      exact refuses
    · exact earlier before other (Nat.lt_of_succ_lt_succ less) there

/-- The handler that is found is the first of the chain that accepts the request. -/
theorem firstAccepting_eq_some_iff : firstAccepting request start chain = some (place, handler) ↔
    ∃ behind, place = start + behind ∧ IsFirst chain request behind handler := by
  induction chain generalizing start with
  | nil => simp [firstAccepting, IsFirst]
  | cons first rest ih =>
      rw [firstAccepting]
      split
      · next accepts =>
          constructor
          · rintro ⟨⟩
            exact ⟨0, rfl, isFirst_cons_zero.mpr ⟨rfl, accepts⟩⟩
          · rintro ⟨_ | behind, rfl, isFirst⟩
            · rw [(isFirst_cons_zero.mp isFirst).1]
            · rw [(isFirst_cons_succ.mp isFirst).1] at accepts
              cases accepts
      · next refuses =>
          rw [Bool.not_eq_true] at refuses
          rw [ih]
          constructor
          · rintro ⟨behind, rfl, isFirst⟩
            exact ⟨behind + 1, by omega, isFirst_cons_succ.mpr ⟨refuses, isFirst⟩⟩
          · rintro ⟨_ | behind, rfl, isFirst⟩
            · rw [(isFirst_cons_zero.mp isFirst).2] at refuses
              cases refuses
            · exact ⟨behind, by omega, (isFirst_cons_succ.mp isFirst).2⟩

/-- None runs if none accepts it. -/
theorem firstAccepting_eq_none_iff : firstAccepting request start chain = none ↔
    ∀ handler ∈ chain, handler.accepts request = false := by
  induction chain generalizing start with
  | nil => simp [firstAccepting]
  | cons first rest ih =>
      rw [firstAccepting, List.forall_mem_cons]
      split
      · next accepts => simp [accepts]
      · next refuses => simp [refuses, ih]

end

/-! ### Routers

The method of a request picks the chain, and the chain the handler.  The answer is that of the handler, or the
one for requests that nobody accepts. -/

namespace Router

/-- The handlers that are asked for a method, in order. -/
def handlers (router : Router) : Method → List Handler
  | .get => router.gets
  | .post => router.posts
  | .other _ => []

variable (router : Router) (request : Request)

/-- The handler that runs is looked for in the chain of the method. -/
theorem ran_route :
    (router.route request).ran = firstAccepting request 0 (router.handlers request.method) := by
  cases method : request.method with
  | get =>
      simp only [route, method, chain?, handlers]
      cases firstAccepting request 0 router.gets <;> rfl
  | post =>
      simp only [route, method, chain?, handlers]
      cases firstAccepting request 0 router.posts <;> rfl
  | other name =>
      simp only [route, method, chain?, handlers]
      rfl

/-- The handler that runs is the first one that accepts the request. -/
theorem ran_route_iff {place : Nat} {handler : Handler} :
    (router.route request).ran = some (place, handler) ↔
      IsFirst (router.handlers request.method) request place handler := by
  rw [ran_route, firstAccepting_eq_some_iff]
  simp

/-- No handler runs only where none accepts the request. -/
theorem ran_route_eq_none_iff : (router.route request).ran = none ↔
    ∀ handler ∈ router.handlers request.method, handler.accepts request = false := by
  rw [ran_route, firstAccepting_eq_none_iff]

/-- What is passed on and answered is up to the handler that ran. -/
theorem route_of_ran {place : Nat} {handler : Handler}
    (ran : (router.route request).ran = some (place, handler)) :
    (router.route request).items = (handler.handle request).items ∧
      (router.route request).response = responseTo (handler.handle request).reply := by
  rw [route] at ran ⊢
  split at ran
  · cases ran
  · split at ran
    · cases ran
    · cases ran
      exact ⟨rfl, rfl⟩

/-- Where no handler ran, the method alone decides the answer. -/
theorem route_of_none (none : (router.route request).ran = none) :
    (router.route request).items = [] ∧
      (router.route request).response = .empty (Receiver.unanswered request.method) := by
  cases method : request.method with
  | get =>
      simp only [route, method, chain?] at none ⊢
      split at none
      · exact ⟨rfl, rfl⟩
      · cases none
  | post =>
      simp only [route, method, chain?] at none ⊢
      split at none
      · exact ⟨rfl, rfl⟩
      · cases none
  | other name => simp [route, method, chain?, Receiver.unanswered]

end Router

/-! ### The built-in handlers

A receiver has two handlers of its own, one that answers a ping and one that hands over a message. -/

namespace Receiver

variable {receiver : Receiver} {items : ItemHandler} {request : Request}

/-- The item of a request says what the request says. -/
theorem submits_submittedItem (receiver : Receiver) (request : Request) :
    receiver.Submits request (Handler.submittedItem receiver.name request) := by
  have put (key : String) :
      (Handler.submittedItem receiver.name request).properties.find? key =
        if key = "content_type" then request.header? "content-type"
        else if key = "peer" then some request.peer else none := by
    rw [← contentTypeHeader]
    cases found : request.header? contentTypeHeader with
    | some contentType =>
        simp only [Handler.submittedItem, found, Table.find?_put, Table.find?_empty]
    | none =>
        simp only [Handler.submittedItem, found, Table.find?_put, Table.find?_empty]
        split
        · next peer => simp [peer]
        · simp
  refine ⟨rfl, rfl, rfl, ?_, ?_, ?_⟩
  · rw [put]
    rfl
  · rw [put, if_pos rfl]
  · intro key peer contentType
    rw [put, if_neg contentType, if_neg peer]

/-- A body is handed over. -/
theorem handle_submit_of_filled (source path : String) (items : ItemHandler)
    (filled : request.body ≠ []) : (Handler.submit source path items).handle request =
      ⟨[Handler.submittedItem source request], (items (Handler.submittedItem source request)).map
        fun _ => .text 202 ((Handler.submittedItem source request).messageId.getD "")⟩ :=
  if_neg filled

/-- A body without a byte is refused, and nothing is handed over. -/
theorem handle_submit_of_empty (source path : String) (items : ItemHandler)
    (empty : request.body = []) :
    (Handler.submit source path items).handle request = ⟨[], .ok (.text 400 "empty body")⟩ :=
  if_pos empty

/-! ### Which handler runs

The built-in handlers stand in front of those that were added. -/

/-- The chains of a receiver, method by method. -/
theorem handlers_router (receiver : Receiver) (items : ItemHandler) (method : Method) :
    (receiver.router items).handlers method = match method with
      | .get => .ping receiver.settings.submitPath :: receiver.gets
      | .post => .submit receiver.name receiver.settings.submitPath items :: receiver.posts
      | .other _ => [] := by
  cases method <;> rfl

/-- A ping is asked for by its path alone. -/
theorem accepts_ping (path : String) :
    (Handler.ping path).accepts request = true ↔ request.path = path :=
  beq_iff_eq

/-- Messages are taken at the path and below it. -/
theorem accepts_submit (source path : String) (items : ItemHandler) :
    (Handler.submit source path items).accepts request = true ↔ Covers path request.path :=
  isUnder_iff

/-- The handler in front of all others is the built-in one. -/
theorem isFirst_zero_iff {handler : Handler} :
    IsFirst ((receiver.router items).handlers request.method) request 0 handler ↔
      (receiver.IsAddressed request ∧
        handler = .submit receiver.name receiver.settings.submitPath items) ∨
      (receiver.IsPing request ∧ handler = .ping receiver.settings.submitPath) := by
  rw [handlers_router, IsAddressed, IsPing]
  cases method : request.method with
  | get => simp [isFirst_cons_zero, accepts_ping, and_comm]
  | post => simp [isFirst_cons_zero, accepts_submit, and_comm]
  | other name => simp [IsFirst]

/-- The others are asked only where it is not concerned. -/
theorem isFirst_succ_iff {place : Nat} {handler : Handler} :
    IsFirst ((receiver.router items).handlers request.method) request (place + 1) handler ↔
      ¬ receiver.IsAddressed request ∧ ¬ receiver.IsPing request ∧
        IsFirst (receiver.extras request.method) request place handler := by
  rw [handlers_router, IsAddressed, IsPing]
  cases method : request.method with
  | get => simp [isFirst_cons_succ, ← accepts_ping, extras]
  | post =>
      simp [isFirst_cons_succ, ← accepts_submit receiver.name receiver.settings.submitPath items, extras]
  | other name => simp [IsFirst, extras]

/-- A request is refused if it is none of the three. -/
theorem refused_iff :
    (∀ handler ∈ (receiver.router items).handlers request.method, handler.accepts request = false) ↔
      ¬ receiver.IsAddressed request ∧ ¬ receiver.IsPing request ∧
        ∀ handler ∈ receiver.extras request.method, handler.accepts request = false := by
  rw [handlers_router, IsAddressed, IsPing]
  cases method : request.method with
  | get => simp [← accepts_ping, extras]
  | post => simp [← accepts_submit receiver.name receiver.settings.submitPath items, extras]
  | other name => simp [extras]

/-! ### What becomes of a request

Each request is one of a few kinds, and for each kind the items that are handed over and the answer are known.
-/

/-- The item that is handed over, and the answer to it. -/
theorem route_of_submission (items : ItemHandler) (h : receiver.IsSubmission request) :
    ((receiver.router items).route request).items = [Handler.submittedItem receiver.name request] ∧
      ((receiver.router items).route request).response =
        receipt (Handler.submittedItem receiver.name request)
          (items (Handler.submittedItem receiver.name request)) := by
  obtain ⟨handed, answer⟩ := Router.route_of_ran _ request
    ((Router.ran_route_iff _ request).mpr (isFirst_zero_iff.mpr (.inl ⟨h.1, rfl⟩)))
  rw [handed, answer, handle_submit_of_filled _ _ _ h.2]
  cases items (Handler.submittedItem receiver.name request) with
  | ok done => exact ⟨rfl, rfl⟩
  | error fault => exact ⟨rfl, rfl⟩

/-- A message without a body is refused. -/
theorem route_of_emptyBody (items : ItemHandler) (addressed : receiver.IsAddressed request)
    (empty : request.body = []) :
    ((receiver.router items).route request).items = [] ∧
      ((receiver.router items).route request).response = .text 400 "empty body" := by
  obtain ⟨handed, answer⟩ := Router.route_of_ran _ request
    ((Router.ran_route_iff _ request).mpr (isFirst_zero_iff.mpr (.inl ⟨addressed, rfl⟩)))
  rw [handed, answer, handle_submit_of_empty _ _ _ empty]
  exact ⟨rfl, rfl⟩

/-- A ping is answered. -/
theorem route_of_ping (items : ItemHandler) (ping : receiver.IsPing request) :
    ((receiver.router items).route request).items = [] ∧
      ((receiver.router items).route request).response = .text 200 "ok" := by
  obtain ⟨handed, answer⟩ := Router.route_of_ran _ request
    ((Router.ran_route_iff _ request).mpr (isFirst_zero_iff.mpr (.inr ⟨ping, rfl⟩)))
  rw [handed, answer]
  exact ⟨rfl, rfl⟩

/-- Whoever takes items has no say in which other handler runs, or in what it does. -/
theorem route_of_others (items other : ItemHandler) (addressed : ¬ receiver.IsAddressed request)
    (ping : ¬ receiver.IsPing request) :
    ((receiver.router other).route request).items = ((receiver.router items).route request).items ∧
      ((receiver.router other).route request).response =
        ((receiver.router items).route request).response := by
  cases ran : ((receiver.router items).route request).ran with
  | none =>
      have none : ((receiver.router other).route request).ran = none := by
        rw [Router.ran_route_eq_none_iff, refused_iff] at ran ⊢
        exact ran
      obtain ⟨handed, answer⟩ := Router.route_of_none _ request ran
      obtain ⟨handed', answer'⟩ := Router.route_of_none _ request none
      exact ⟨handed'.trans handed.symm, answer'.trans answer.symm⟩
  | some chosen =>
      obtain ⟨place, handler⟩ := chosen
      have same : ((receiver.router other).route request).ran = some (place, handler) := by
        rw [Router.ran_route_iff] at ran ⊢
        cases place with
        | zero =>
            rcases isFirst_zero_iff.mp ran with ⟨here, -⟩ | ⟨here, -⟩
            · exact absurd here addressed
            · exact absurd here ping
        | succ place =>
            rw [isFirst_succ_iff] at ran ⊢
            exact ran
      obtain ⟨handed, answer⟩ := Router.route_of_ran _ request ran
      obtain ⟨handed', answer'⟩ := Router.route_of_ran _ request same
      exact ⟨handed'.trans handed.symm, answer'.trans answer.symm⟩

/-- Whoever takes items decides nothing but the answer to the item that is handed over. -/
theorem consulted_only (items other : ItemHandler)
    (agree : ∀ item ∈ ((receiver.router items).route request).items, other item = items item) :
    ((receiver.router other).route request).items = ((receiver.router items).route request).items ∧
      ((receiver.router other).route request).response =
        ((receiver.router items).route request).response := by
  by_cases addressed : receiver.IsAddressed request
  · by_cases empty : request.body = []
    · obtain ⟨handed, answer⟩ := route_of_emptyBody items addressed empty
      obtain ⟨handed', answer'⟩ := route_of_emptyBody other addressed empty
      exact ⟨handed'.trans handed.symm, answer'.trans answer.symm⟩
    · obtain ⟨handed, answer⟩ := route_of_submission items ⟨addressed, empty⟩
      obtain ⟨handed', answer'⟩ := route_of_submission other ⟨addressed, empty⟩
      rw [handed] at agree
      rw [handed', answer', agree _ List.mem_cons_self]
      exact ⟨handed.symm, answer.symm⟩
  · by_cases ping : receiver.IsPing request
    · obtain ⟨handed, answer⟩ := route_of_ping items ping
      obtain ⟨handed', answer'⟩ := route_of_ping other ping
      exact ⟨handed'.trans handed.symm, answer'.trans answer.symm⟩
    · exact route_of_others items other addressed ping

/-- Every request is served as promised, whatever the path that takes messages is, whatever other handlers
there are, and whatever becomes of the item. -/
theorem requests_served (receiver : Receiver) (items : ItemHandler) (request : Request) :
    receiver.Served items request ((receiver.router items).route request) := by
  constructor
  case builtIn =>
    simp only [Router.ran_route_iff, isFirst_zero_iff]
    constructor
    · rintro (addressed | ping)
      · exact ⟨_, .inl ⟨addressed, rfl⟩⟩
      · exact ⟨_, .inr ⟨ping, rfl⟩⟩
    · rintro ⟨-, ⟨addressed, -⟩ | ⟨ping, -⟩⟩
      · exact .inl addressed
      · exact .inr ping
  case submission => exact fun h => ⟨_, submits_submittedItem receiver request, route_of_submission items h⟩
  case emptyBody => exact route_of_emptyBody items
  case ping => exact route_of_ping items
  case extra =>
    intro addressed ping place handler
    rw [Router.ran_route_iff, isFirst_succ_iff]
    exact ⟨fun h => h.2.2, fun h => ⟨addressed, ping, h⟩⟩
  case answered =>
    intro place handler ran
    obtain ⟨handed, answer⟩ := Router.route_of_ran _ request ran
    refine ⟨handed, answer.trans ?_⟩
    cases (handler.handle request).reply with
    | ok response => rfl
    | error fault => rfl
  case nobody => rw [Router.ran_route_eq_none_iff, refused_iff]
  case nobodyAnswers => exact Router.route_of_none _ request
  case consulted => exact consulted_only items

end Receiver

end Http

end Intake
