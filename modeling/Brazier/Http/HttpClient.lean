import Brazier.Http.Message
import Brazier.Http.UrlParts

/-!
# Sending a request

`HttpClient::send_request`, `send_http_request` and `send_https_request` of `src/HttpClient.cpp`, up
to the request that is written. `parse_url` reads the query of the URL, but none of them looks at
it. `target_iff` says which requests have the target that they should have.
-/

namespace Brazier

open ProofLib

/-- `http::verb`. -/
inductive Verb where
  | get
  | post
  | put
  | delete
  | other (name : Text)
  deriving DecidableEq

/-- `to_string(verb)`. -/
def Verb.text : Verb → Text
  | .get => "GET"
  | .post => "POST"
  | .put => "PUT"
  | .delete => "DELETE"
  | .other name => name

namespace Request

/-- `Request req{ method, target, version }`. -/
def ofTarget (method target : Text) (version : Nat) : Request :=
  ⟨method, target, version, [], [], 11 ≤ version⟩

/-- `req.set(name, value)`: the field replaces the ones of its name. -/
def set (req : Request) (name value : Text) : Request :=
  { req with fields := req.fields.filter (fun field => field.1 ≠ name) ++ [(name, value)] }

/-- `req.prepare_payload()`. -/
def preparePayload (req : Request) : Request :=
  if req.body ≠ [] ∨ req.method = ("OPTIONS" : Text) ∨ req.method = ("PUT" : Text) ∨
      req.method = ("POST" : Text) then
    req.set "Content-Length" (natText req.body.length)
  else req

@[simp] theorem set_target (req : Request) (name value : Text) :
    (req.set name value).target = req.target := rfl

@[simp] theorem preparePayload_target (req : Request) :
    req.preparePayload.target = req.target := by
  unfold preparePayload
  split <;> rfl

end Request

/-- What the client meets on the network: the number of addresses of a host and a port, and whether
the connection and the handshake succeed. -/
structure Network where
  resolve : Text → Text → Except ClientError Nat
  connect : Text → Text → Except ClientError Unit
  handshake : Text → Except ClientError Unit

namespace HttpClient

variable {ν : Type} (J : JsonText ν) (emptyArray : ν → Bool) (beastVersion : Text)

/-- `json::empty()`. The parameter says which of the other leaves are empty arrays. -/
def isEmpty (body : Json ν) : Bool :=
  match body.1 with
  | .leaf .null => true
  | .leaf (.string _) => false
  | .leaf (.other value) => emptyArray value
  | .node .nil => true
  | .node _ => false

/-- `setup_common_headers`. -/
def setupCommonHeaders (req : Request) (host : Text) : Request :=
  ((req.set "Host" host).set "User-Agent" beastVersion).set "Accept" "*/*"

/-- The body goes into the request, or into its target. -/
def placeBody (req : Request) (urlParts : UrlParts) (method : Verb) (body : Json ν) :
    Except ClientError Request :=
  if method = .post ∨ method = .put ∨ method = .delete then
    let req := req.set "Content-Type" "application/json"
    if isEmpty emptyArray body then .ok req
    else
      match J.dump none body with
      | some text => .ok { req with body := text }
      | none => .error .typeError
  else if method = .get ∧ isEmpty emptyArray body = false then
    (jsonToQueryString J body).map fun queryString =>
      if queryString ≠ [] then
        { req with target := urlParts.path ++ ("?" : Text) ++ queryString }
      else req
  else .ok req

/-- The request that both routines build. -/
def buildRequest (urlParts : UrlParts) (method : Verb) (body : Json ν) :
    Except ClientError Request :=
  let req := Request.ofTarget method.text urlParts.path 11
  let req := setupCommonHeaders beastVersion req urlParts.host
  (placeBody J emptyArray req urlParts method body).map Request.preparePayload

/-- The addresses of a host. -/
def lookUp (network : Network) (urlParts : UrlParts) : Except ClientError Unit := do
  let results ← network.resolve urlParts.host urlParts.port
  if results = 0 then
    throw (.runtimeError (("No DNS records found for " : Text) ++ urlParts.host))

/-- `send_http_request`, up to the request that is written. -/
def sendHttpRequest (network : Network) (urlParts : UrlParts) (method : Verb) (body : Json ν) :
    Except ClientError Request := do
  lookUp network urlParts
  network.connect urlParts.host urlParts.port
  buildRequest J emptyArray beastVersion urlParts method body

/-- `send_https_request`, up to the request that is written. -/
def sendHttpsRequest (network : Network) (urlParts : UrlParts) (method : Verb) (body : Json ν) :
    Except ClientError Request := do
  lookUp network urlParts
  network.connect urlParts.host urlParts.port
  network.handshake urlParts.host
  buildRequest J emptyArray beastVersion urlParts method body

/-- `send_request`. -/
def sendRequest (network : Network) (url : Text) (method : Verb) (body : Json ν) :
    Except ClientError Request := do
  let urlParts ← parseUrl url
  if urlParts.protocol = ("https" : Text) then
    sendHttpsRequest J emptyArray beastVersion network urlParts method body
  else sendHttpRequest J emptyArray beastVersion network urlParts method body

/-! ## The target -/

/-- The query of the URL. -/
def urlItems (urlParts : UrlParts) : List Text :=
  if urlParts.query ≠ [] then [urlParts.query] else []

/-- The query of a body that is not sent as such. -/
def bodyItems (method : Verb) (body : Json ν) : Except ClientError (List Text) :=
  if method = .get ∧ isEmpty emptyArray body = false then
    (jsonToQueryString J body).map fun queryString => [queryString]
  else .ok []

/-- A path with a query behind it, if there is any. -/
def targetOf (path : Text) (items : List Text) : Text :=
  if items = [] then path else path ++ ("?" : Text) ++ joinWith ("&" : Text) items

/-- The target that the request should have. -/
def wholeTarget (urlParts : UrlParts) (method : Verb) (body : Json ν) : Except ClientError Text :=
  (bodyItems J emptyArray method body).map fun items =>
    targetOf urlParts.path (urlItems urlParts ++ items)

/-- An operation that returned went through its first part. -/
theorem bind_eq_ok {α β : Type} {x : Except ClientError α} {f : α → Except ClientError β} {b : β}
    (h : x >>= f = .ok b) : ∃ a, x = .ok a ∧ f a = .ok b := by
  cases x with
  | error e => cases h
  | ok a => exact ⟨a, rfl, h⟩

variable {J emptyArray beastVersion}

/-- An object that is not empty has members. -/
theorem exists_member {body : Json ν} {members : List (Text × Json ν)}
    (hobject : body.members = some members) (hempty : isEmpty emptyArray body = false) :
    ∃ member rest, members = member :: rest := by
  obtain ⟨t, ht⟩ := body
  cases t with
  | leaf leaf => cases hobject
  | node f =>
      cases f with
      | nil => cases hempty
      | leaf key value rest => exact ⟨_, _, (Option.some.inj hobject).symm⟩
      | node key sub rest => exact ⟨_, _, (Option.some.inj hobject).symm⟩

/-- Another item in front makes another target. -/
theorem targetOf_cons_ne {path item : Text} (hitem : item ≠ []) (items : List Text) :
    targetOf path (item :: items) ≠ targetOf path items := by
  intro h
  have hlengths := congrArg List.length h
  cases items with
  | nil => simp [targetOf] at hlengths
  | cons next items =>
      have hjoin : joinWith ("&" : Text) (item :: next :: items) =
          item ++ ("&" : Text) ++ joinWith ("&" : Text) (next :: items) := rfl
      have hlength := List.length_pos_of_ne_nil hitem
      rw [targetOf, targetOf, if_neg (by simp), if_neg (by simp), hjoin] at hlengths
      simp only [List.length_append] at hlengths
      omega

/-- The path is the target, or the query of the body is put behind it. -/
theorem placeBody_target {req placed : Request} {urlParts : UrlParts} {method : Verb}
    {body : Json ν} {members : List (Text × Json ν)} (hobject : body.members = some members)
    (htarget : req.target = urlParts.path)
    (h : placeBody J emptyArray req urlParts method body = .ok placed) :
    (bodyItems J emptyArray method body).map (targetOf urlParts.path) = .ok placed.target := by
  unfold placeBody at h
  unfold bodyItems
  split at h
  · next hbody =>
      have hget : ¬ (method = .get ∧ isEmpty emptyArray body = false) := by
        rintro ⟨rfl, _⟩
        simp at hbody
      have hplaced : placed.target = urlParts.path := by
        dsimp only at h
        split at h
        · cases h
          exact htarget
        · split at h
          · cases h
            exact htarget
          · cases h
      rw [if_neg hget, hplaced]
      rfl
  · split at h
    · next hget =>
        obtain ⟨member, rest, rfl⟩ := exists_member hobject hget.2
        cases hquery : jsonToQueryString J body with
        | error e =>
            rw [hquery] at h
            cases h
        | ok queryString =>
            have hne := jsonToQueryString_ne_nil J hobject hquery
            rw [hquery] at h
            cases h
            dsimp only
            rw [if_pos hget, if_pos hne]
            rfl
    · next hget =>
        cases h
        rw [if_neg hget, htarget]
        rfl

/-- The query of the URL is not in the target. -/
theorem buildRequest_target {urlParts : UrlParts} {method : Verb} {body : Json ν}
    {members : List (Text × Json ν)} (hobject : body.members = some members) {req : Request}
    (h : buildRequest J emptyArray beastVersion urlParts method body = .ok req) :
    (bodyItems J emptyArray method body).map (targetOf urlParts.path) = .ok req.target := by
  unfold buildRequest at h
  dsimp only at h
  cases hplaced : placeBody J emptyArray (setupCommonHeaders beastVersion
      (Request.ofTarget method.text urlParts.path 11) urlParts.host) urlParts method body with
  | error e =>
      rw [hplaced] at h
      cases h
  | ok placed =>
      rw [hplaced] at h
      cases h
      rw [Request.preparePayload_target]
      exact placeBody_target hobject rfl hplaced

/-- The URL was read, and then the request was built. -/
theorem buildRequest_of_sendRequest {network : Network} {url : Text} {method : Verb}
    {body : Json ν} {req : Request}
    (h : sendRequest J emptyArray beastVersion network url method body = .ok req) :
    ∃ urlParts, parseUrl url = .ok urlParts ∧
      buildRequest J emptyArray beastVersion urlParts method body = .ok req := by
  obtain ⟨urlParts, hparse, h⟩ := bind_eq_ok h
  refine ⟨urlParts, hparse, ?_⟩
  split at h
  · obtain ⟨_, _, h⟩ := bind_eq_ok h
    obtain ⟨_, _, h⟩ := bind_eq_ok h
    obtain ⟨_, _, h⟩ := bind_eq_ok h
    exact h
  · obtain ⟨_, _, h⟩ := bind_eq_ok h
    obtain ⟨_, _, h⟩ := bind_eq_ok h
    exact h

/-- A request that is sent has the target it should have exactly when the URL has no query. -/
theorem target_iff {network : Network} {url : Text} {method : Verb} {body : Json ν}
    {members : List (Text × Json ν)} (hobject : body.members = some members) {req : Request}
    (hsent : sendRequest J emptyArray beastVersion network url method body = .ok req) :
    ∃ urlParts, parseUrl url = .ok urlParts ∧
      (wholeTarget J emptyArray urlParts method body = .ok req.target ↔ urlParts.query = []) := by
  obtain ⟨urlParts, hparse, hbuild⟩ := buildRequest_of_sendRequest hsent
  have htarget := buildRequest_target hobject hbuild
  refine ⟨urlParts, hparse, ?_⟩
  unfold wholeTarget urlItems
  cases hitems : bodyItems J emptyArray method body with
  | error e =>
      rw [hitems] at htarget
      cases htarget
  | ok items =>
      rw [hitems] at htarget
      have heq : targetOf urlParts.path items = req.target := Except.ok.inj htarget
      by_cases hnil : urlParts.query = []
      · rw [if_neg (not_not.mpr hnil)]
        exact iff_of_true htarget hnil
      · rw [if_pos hnil]
        refine iff_of_false ?_ hnil
        intro h
        exact targetOf_cons_ne hnil items ((Except.ok.inj h).trans heq.symm)

/-- A network where every host answers. -/
def openNetwork : Network := ⟨fun _ _ => .ok 1, fun _ _ => .ok (), fun _ => .ok ()⟩

/-- An object without members. -/
def emptyObject : Json Bool := ⟨.node .nil, trivial⟩

/-- An object with one member. -/
def pageObject : Json Bool :=
  ⟨.node (.leaf ("page" : Text) (.string ("2" : Text)) .nil),
    by simp [Tree.Sorted, Forest.Sorted, Forest.keys]⟩

/-- The request for a list with a page in the body. -/
def pageRequest : Request where
  method := "GET"
  target := "/list?page=2"
  version := 11
  fields := [(("Host" : Text), ("example.com" : Text)), (("User-Agent" : Text), ("Beast" : Text)),
    (("Accept" : Text), ("*/*" : Text))]
  body := []
  keepAlive := true

theorem target_page :
    ∃ urlParts, parseUrl ("https://example.com/list" : Text) = .ok urlParts ∧
      (wholeTarget PlainJson.jsonText (fun _ => false) urlParts .get pageObject =
        .ok pageRequest.target ↔ urlParts.query = []) := by
  have hsent : sendRequest PlainJson.jsonText (fun _ => false) "Beast" openNetwork
      ("https://example.com/list" : Text) .get pageObject = .ok pageRequest := by
    decide
  exact target_iff rfl hsent

/-- A list is requested without the page that the URL asks for. -/
theorem query_lost :
    ∃ req, sendRequest PlainJson.jsonText (fun _ => false) "Beast" openNetwork
        ("http://example.com/list?page=2" : Text) .get emptyObject = .ok req ∧
      req.target = ("/list" : Text) ∧
      ∀ urlParts, parseUrl ("http://example.com/list?page=2" : Text) = .ok urlParts →
        urlParts.query = ("page=2" : Text) ∧
        wholeTarget PlainJson.jsonText (fun _ => false) urlParts .get emptyObject =
          .ok ("/list?page=2" : Text) := by
  have hparse : parseUrl ("http://example.com/list?page=2" : Text) =
      .ok ⟨("http" : Text), ("example.com" : Text), ("80" : Text), ("/list" : Text),
        ("page=2" : Text)⟩ := by
    decide
  refine ⟨{ pageRequest with target := "/list" }, by decide, rfl, ?_⟩
  intro urlParts h
  rw [hparse] at h
  cases h
  exact ⟨rfl, by decide⟩

end HttpClient

end Brazier
