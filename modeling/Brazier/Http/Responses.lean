import Brazier.Http.Handling

/-!
# One response per request

`answered_iff`: on every connection of the HTTPS server and for every behaviour of the handlers, a
request gets one response, a 500 when its handler threw, exactly when nothing leaves the loop
before the write. That is the exceptions which are no `std::exception`, and a body with a status
that forbids one.
-/

namespace Brazier

namespace HttpsServer

/-- What the handler of a pass leaves, and how it ends. -/
def handled (handlings : Nat → Handling) (pass : Progress × Request) : Outcome × Response :=
  handlings pass.1.handled pass.2 (opened pass.1.res pass.2)

/-- The response object when it is written. -/
def prepared (handlings : Nat → Handling) (pass : Progress × Request) : Response :=
  let (outcome, res) := handled handlings pass
  let res := if outcome = .returns then res else serverError res
  res.contentLength res.body.length

/-- `keep_alive` when the response is written. -/
def keepsAlive (handlings : Nat → Handling) (pass : Progress × Request) : Bool :=
  (handled handlings pass).1 = .returns && pass.2.keepAlive

/-- One response is written in the pass, a 500 when the handler threw. -/
def AnsweredOnce (server : HttpsServer) (handlings : Nat → Handling)
    (pass : Progress × Request) : Prop :=
  ∃ res bytes, (server.turnWith handlings pass.1 pass.2).1 = [.writes res bytes] ∧
    ((handled handlings pass).1 ≠ .returns → res.status = 500)

/-- The handler throws nothing but a `std::exception`; and when it returns, the response has no
body or a status that may come with one. -/
structure Answerable (handlings : Nat → Handling) (pass : Progress × Request) : Prop where
  caught : (handled handlings pass).1 ≠ .throwsOther
  payload : (handled handlings pass).1 = .returns →
    (handled handlings pass).2.body = [] ∨
      Response.isBodiless (handled handlings pass).2.status = false

/-! ## One pass -/

/-- A response that may have its body is written. -/
theorem finish_writes (server : HttpsServer) {res : Response}
    (hlegal : res.body = [] ∨ Response.isBodiless res.status = false) (keepAlive : Bool) :
    server.finish res keepAlive = .writes (res.contentLength res.body.length)
      (server.flat (res.contentLength res.body.length) keepAlive) keepAlive := by
  have hno : ¬ (res.body ≠ [] ∧ Response.isBodiless res.status = true) := by
    intro ⟨hbody, hstatus⟩
    obtain hnil | hfree := hlegal
    · exact hbody hnil
    · rw [hstatus] at hfree
      cases hfree
  rw [finish, Response.preparePayload, if_neg hno]

/-- Any other response leaves the loop. -/
theorem finish_leaves (server : HttpsServer) {res : Response}
    (hillegal : ¬ (res.body = [] ∨ Response.isBodiless res.status = false)) (keepAlive : Bool) :
    server.finish res keepAlive = .leaves := by
  rw [not_or, Bool.not_eq_false] at hillegal
  rw [finish, Response.preparePayload, if_pos hillegal]

variable (server : HttpsServer) {handlings : Nat → Handling} {pass : Progress × Request}

/-- The reply in a pass that can be answered. -/
theorem respondWith_of_answerable (h : Answerable handlings pass) :
    server.respondWith (handlings pass.1.handled) pass.1.res pass.2 =
      .writes (prepared handlings pass)
        (server.flat (prepared handlings pass) (keepsAlive handlings pass))
        (keepsAlive handlings pass) := by
  obtain ⟨hcaught, hpayload⟩ := h
  unfold prepared keepsAlive respondWith
  unfold handled at hcaught hpayload ⊢
  cases houtcome : handlings pass.1.handled pass.2 (opened pass.1.res pass.2) with
  | mk outcome res =>
      rw [houtcome] at hcaught hpayload
      cases outcome with
      | returns => exact server.finish_writes (hpayload rfl) pass.2.keepAlive
      | throwsException =>
          refine server.finish_writes (Or.inr ?_) false
          show Response.isBodiless 500 = false
          rfl
      | throwsOther => exact absurd rfl hcaught

/-- Any other pass leaves the loop. -/
theorem respondWith_of_not_answerable (h : ¬ Answerable handlings pass) :
    server.respondWith (handlings pass.1.handled) pass.1.res pass.2 = .leaves := by
  unfold respondWith
  cases houtcome : handlings pass.1.handled pass.2 (opened pass.1.res pass.2) with
  | mk outcome res =>
      have hhandled : handled handlings pass = (outcome, res) := houtcome
      cases outcome with
      | returns =>
          refine server.finish_leaves (fun hlegal => h ⟨?_, ?_⟩) pass.2.keepAlive
          · rw [hhandled]
            exact nofun
          · rw [hhandled]
            exact fun _ => hlegal
      | throwsException =>
          refine absurd ⟨?_, ?_⟩ h
          · rw [hhandled]
            exact nofun
          · rw [hhandled]
            exact nofun
      | throwsOther => rfl

/-- A pass that can be answered writes the prepared response, and goes on if that says so, the write
succeeds and the timer has not fired. -/
theorem turnWith_of_answerable (h : Answerable handlings pass) :
    (server.turnWith handlings pass.1 pass.2).1 = [.writes (prepared handlings pass)
        (server.flat (prepared handlings pass) (keepsAlive handlings pass))] ∧
      ((server.turnWith handlings pass.1 pass.2).2 = none ↔
        ¬ ((pass.1.endings.headD .inTime).goesOn = true ∧ keepsAlive handlings pass = true)) := by
  rw [turnWith, server.respondWith_of_answerable h, ← Bool.and_eq_true]
  refine ⟨rfl, ?_⟩
  show (if ((pass.1.endings.headD .inTime).goesOn && keepsAlive handlings pass) = true
    then some _ else none) = none ↔ _
  by_cases hgoes : ((pass.1.endings.headD .inTime).goesOn && keepsAlive handlings pass) = true
  · rw [if_pos hgoes]
    exact iff_of_false (Option.some_ne_none _) (not_not.mpr hgoes)
  · rw [if_neg hgoes]
    exact iff_of_true rfl hgoes

/-- Any other pass writes nothing. -/
theorem turnWith_of_not_answerable (h : ¬ Answerable handlings pass) :
    (server.turnWith handlings pass.1 pass.2).1 = [] := by
  rw [turnWith, server.respondWith_of_not_answerable h]

/-- The response to a request whose handler threw. -/
theorem prepared_status (h : (handled handlings pass).1 ≠ .returns) :
    (prepared handlings pass).status = 500 := by
  rw [prepared]
  cases hhandled : handled handlings pass with
  | mk outcome res =>
      rw [hhandled] at h
      show (if outcome = .returns then res else serverError res).status = 500
      rw [if_neg h]
      rfl

theorem answeredOnce_iff : server.AnsweredOnce handlings pass ↔ Answerable handlings pass := by
  by_cases h : Answerable handlings pass
  · refine iff_of_true ⟨_, _, (server.turnWith_of_answerable h).1, ?_⟩ h
    exact prepared_status
  · refine iff_of_false ?_ h
    intro ⟨res, bytes, hevents, _⟩
    rw [server.turnWith_of_not_answerable h] at hevents
    cases hevents

/-- A server with a handler that throws a number. -/
def numberThrower : HttpsServer := ⟨⟨fun _ => []⟩, [], ⟨fun _ => [], fun _ => []⟩⟩

/-- A handler that throws a number. -/
def throwsNumber : Handling := fun _ res => (.throwsOther, res)

end HttpsServer

end Brazier
