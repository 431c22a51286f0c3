import Brazier.Http.Message
import Mathlib.Data.List.Infix

/-!
# Middlewares

`MiddlewarePipeline` of `src/MiddlewarePipeline.cpp`, over any type of middlewares and whatever
their `handle` does, and `CorsMiddleware`, whose `handle` has a path without a `return`.
`middleware_chain_iff` says for which chains the pipeline runs as it should, and for which requests
`CorsMiddleware` decides.
-/

namespace Brazier

/-- How a call of `handle` ends. A function that flows off its end has no value, and what its
caller does then is undefined. -/
inductive HandleEnd where
  | returns (value : Bool)
  | flowsOff
  | throws
  deriving DecidableEq

/-- A `MiddlewarePipeline`. -/
structure MiddlewarePipeline (μ : Type) where
  chain : List μ

/-- A run of a pipeline: how it ends, what it leaves, and the calls of `handle` in their order. -/
structure PipelineRun (μ σ : Type) where
  ended : HandleEnd
  state : σ
  calls : List (μ × HandleEnd)

namespace MiddlewarePipeline

variable {μ σ : Type}

/-- `use`. -/
def use (pipeline : MiddlewarePipeline μ) (mw : μ) : MiddlewarePipeline μ :=
  ⟨pipeline.chain ++ [mw]⟩

/-- `MiddlewarePipeline()`, and calls of `use`. -/
def ofUses (middlewares : List μ) : MiddlewarePipeline μ := middlewares.foldl use ⟨[]⟩

variable (handle : μ → σ → HandleEnd × σ)

/-- The loop of `run`. -/
def runChain : List μ → σ → PipelineRun μ σ
  | [], s => ⟨.returns true, s, []⟩
  | mw :: rest, s =>
      match handle mw s with
      | (.returns true, s') =>
          let run := runChain rest s'
          { run with calls := (mw, .returns true) :: run.calls }
      | (.returns false, s') => ⟨.returns false, s', [(mw, .returns false)]⟩
      | (.flowsOff, s') => ⟨.flowsOff, s', [(mw, .flowsOff)]⟩
      | (.throws, s') => ⟨.throws, s', [(mw, .throws)]⟩

/-- `run`. -/
def run (pipeline : MiddlewarePipeline μ) (s : σ) : PipelineRun μ σ :=
  runChain handle pipeline.chain s

/-- How a chain should be run: its middlewares are called in their order, each but the last one
called has returned true, and the loop is left for a middleware that returned false or threw. It
returns true when all of them did, and false when one did. -/
structure InOrder (chain : List μ) (run : PipelineRun μ σ) : Prop where
  order : run.calls.map Prod.fst <+: chain
  passed : ∀ call ∈ run.calls.dropLast, call.2 = .returns true
  left : run.calls.map Prod.fst = chain ∨
    ∃ call ∈ run.calls.getLast?, call.2 = .returns false ∨ call.2 = .throws
  returns : run.ended = .throws ∨ ∃ value, run.ended = .returns value
  isTrue : run.ended = .returns true ↔
    run.calls.map Prod.fst = chain ∧ ∀ call ∈ run.calls, call.2 = .returns true
  isFalse : run.ended = .returns false ↔ ∃ call ∈ run.calls, call.2 = .returns false

/-- Every middleware that is reached ends its call with a value or an exception. -/
def Decided : List μ → σ → Prop
  | [], _ => True
  | mw :: rest, s =>
      match handle mw s with
      | (.returns true, s') => Decided rest s'
      | (.returns false, _) => True
      | (.flowsOff, _) => False
      | (.throws, _) => True

theorem chain_ofUses (middlewares : List μ) : (ofUses middlewares).chain = middlewares := by
  have hfold : ∀ chain : List μ, (middlewares.foldl use ⟨chain⟩).chain = chain ++ middlewares := by
    induction middlewares with
    | nil => simp
    | cons mw rest ih =>
        intro chain
        rw [List.foldl_cons, use, ih]
        simp
  exact hfold []

/-- A call that ends the run. -/
theorem inOrder_single {mw : μ} {rest : List μ} {ended : HandleEnd} {s : σ}
    (h : ended = .returns false ∨ ended = .throws) :
    InOrder (mw :: rest) ⟨ended, s, [(mw, ended)]⟩ := by
  have hnot : ended ≠ .returns true := by
    rintro rfl
    rcases h with h | h <;> cases h
  refine ⟨List.prefix_append [mw] rest, nofun, .inr ⟨(mw, ended), rfl, h⟩, ?_, ?_, ?_⟩
  · rcases h with hfalse | hthrows
    · exact .inr ⟨false, hfalse⟩
    · exact .inl hthrows
  · exact iff_of_false hnot fun hall => hnot (hall.2 (mw, ended) List.mem_cons_self)
  · simp

/-- Behind a middleware that returned true the chain is run as the rest of it. -/
theorem InOrder.cons {mw : μ} {rest : List μ} {run : PipelineRun μ σ} (h : InOrder rest run) :
    InOrder (mw :: rest) { run with calls := (mw, .returns true) :: run.calls } where
  order := List.cons_prefix_cons.mpr ⟨rfl, h.order⟩
  passed := by
    cases hcalls : run.calls with
    | nil => exact nofun
    | cons call calls =>
        rw [List.dropLast_cons_of_ne_nil (List.cons_ne_nil call calls), List.forall_mem_cons,
          ← hcalls]
        exact ⟨rfl, h.passed⟩
  left := by
    rcases h.left with hall | ⟨call, hlast, hcall⟩
    · exact .inl (congrArg (mw :: ·) hall)
    · refine .inr ⟨call, ?_, hcall⟩
      rw [List.getLast?_cons, Option.mem_def.mp hlast]
      rfl
  returns := h.returns
  isTrue := by
    rw [List.map_cons, List.cons_eq_cons, List.forall_mem_cons]
    exact h.isTrue.trans ⟨fun ⟨hall, htrue⟩ => ⟨⟨rfl, hall⟩, rfl, htrue⟩,
      fun ⟨hall, htrue⟩ => ⟨hall.2, htrue.2⟩⟩
  isFalse := by
    rw [List.exists_mem_cons_iff, or_iff_right (by simp)]
    exact h.isFalse

/-- A chain is run as it should be exactly when every middleware that is reached decides. -/
theorem inOrder_iff (chain : List μ) (s : σ) :
    InOrder chain (runChain handle chain s) ↔ Decided handle chain s := by
  constructor
  · intro h
    have hdefined : (runChain handle chain s).ended ≠ .flowsOff := by
      intro hended
      rcases h.returns with hthrows | ⟨value, hvalue⟩
      · rw [hended] at hthrows
        cases hthrows
      · rw [hended] at hvalue
        cases hvalue
    clear h
    induction chain generalizing s with
    | nil => trivial
    | cons mw rest ih =>
        unfold runChain at hdefined
        unfold Decided
        split <;> simp_all
  · intro h
    induction chain generalizing s with
    | nil =>
        refine ⟨List.prefix_rfl, nofun, .inl rfl, .inr ⟨true, rfl⟩, ?_, ?_⟩
        · simp [runChain]
        · simp [runChain]
    | cons mw rest ih =>
        unfold Decided at h
        unfold runChain
        split
        · next s' hcall =>
            rw [hcall] at h
            exact (ih s' h).cons
        · exact inOrder_single (.inl rfl)
        · next hcall =>
            rw [hcall] at h
            exact absurd h id
        · exact inOrder_single (.inr rfl)

end MiddlewarePipeline

/-! ## CORS -/

/-- `req[name]`: the value of the first field with the name, whose case does not matter. -/
def Request.field (req : Request) (name : Text) : Text :=
  ((req.fields.find? fun field => field.1.map Char.toLower = name.map Char.toLower).map
    Prod.snd).getD []

/-- `Middleware::setCors`. -/
def Response.setCors (res : Response) : Response :=
  { ((((res.set "Access-Control-Allow-Origin" "http://localhost:3000").set
      "Access-Control-Allow-Methods" "POST, GET, OPTIONS, PATCH, PUT, DELETE").set
      "Access-Control-Allow-Headers" "Content-Type, Authorization").set
      "Access-Control-Allow-Credentials" "true") with status := 200 }

/-- `res.prepare_payload()` before a `return`. -/
def Response.prepared (res : Response) (value : Bool) : HandleEnd × Response :=
  match res.preparePayload with
  | .ok res => (.returns value, res)
  | .error _ => (.throws, res)

/-- A `CorsMiddleware`. -/
structure CorsMiddleware where
  allowedDomains : List Text
  deriving DecidableEq

namespace CorsMiddleware

variable (cors : CorsMiddleware) (req : Request) (res : Response)

/-- The variable `allowed` of `handle`. -/
def allowed : Bool :=
  cors.allowedDomains.isEmpty || cors.allowedDomains.contains (req.field "Origin")

/-- `handle`. -/
def handle : HandleEnd × Response :=
  if !cors.allowed req then
    Response.prepared
      ({ res with status := 403, body := ("CORS: Origin not allowed" : Text) }.set
        "Access-Control-Allow-Origin" "null") false
  else
    let res := res.setCors
    if req.method = ("OPTIONS" : Text) then
      Response.prepared { res with status := 200, body := ("CORS preflight" : Text) } true
    else (.flowsOff, res)  -- there is no `return` behind this

/-- What is said of `handle`: it returns a value, which is false exactly when there are domains and
the origin is none of them. -/
def Decides : Prop :=
  ∃ value, (cors.handle req res).1 = .returns value ∧
    (value = false ↔ cors.allowedDomains ≠ [] ∧ req.field "Origin" ∉ cors.allowedDomains)

theorem allowed_eq_false_iff :
    cors.allowed req = false ↔
      cors.allowedDomains ≠ [] ∧ req.field "Origin" ∉ cors.allowedDomains := by
  simp [allowed]

/-- A status that may come with a body is prepared without an exception. -/
theorem prepared_fst {res : Response} (h : Response.isBodiless res.status = false) (value : Bool) :
    (res.prepared value).1 = .returns value := by
  rw [Response.prepared, Response.preparePayload, if_neg (by simp [h])]

/-- How `handle` ends. -/
theorem handle_fst :
    (cors.handle req res).1 =
      if cors.allowed req = false then .returns false
      else if req.method = ("OPTIONS" : Text) then .returns true else .flowsOff := by
  unfold handle
  by_cases hallowed : cors.allowed req = false
  · rw [if_pos hallowed, if_pos (by rw [hallowed]; rfl)]
    exact prepared_fst (by simp [Response.isBodiless]) false
  · rw [if_neg hallowed, if_neg (by simpa using hallowed)]
    dsimp only
    split
    · exact prepared_fst (by simp [Response.isBodiless]) true
    · rfl

/-- It decides about a request that is refused, and about a preflight request. -/
theorem decides_iff :
    cors.Decides req res ↔ cors.allowed req = false ∨ req.method = ("OPTIONS" : Text) := by
  unfold Decides
  rw [← allowed_eq_false_iff, handle_fst]
  cases hallowed : cors.allowed req with
  | false => simp
  | true =>
      rw [if_neg Bool.false_ne_true.symm]
      by_cases hmethod : req.method = ("OPTIONS" : Text)
      · rw [if_pos hmethod]
        exact iff_of_true ⟨true, rfl, by simp⟩ (.inr hmethod)
      · rw [if_neg hmethod]
        refine iff_of_false nofun ?_
        rintro (hrefused | hoptions)
        · cases hrefused
        · exact hmethod hoptions

/-- A pipeline runs its chain as it should, and `CorsMiddleware` decides about the request, exactly
when every middleware of the chain that is reached ends with a value or an exception, and the
request is refused or a preflight request. -/
theorem middleware_chain_iff {μ σ : Type} (handle : μ → σ → HandleEnd × σ) (middlewares : List μ)
    (s : σ) :
    (MiddlewarePipeline.InOrder middlewares
        ((MiddlewarePipeline.ofUses middlewares).run handle s) ∧ cors.Decides req res) ↔
      MiddlewarePipeline.Decided handle middlewares s ∧
        (cors.allowed req = false ∨ req.method = ("OPTIONS" : Text)) := by
  rw [MiddlewarePipeline.run, MiddlewarePipeline.chain_ofUses, MiddlewarePipeline.inOrder_iff,
    decides_iff]

end CorsMiddleware

/-- A request that any origin may make. -/
def getRequest : Request := ⟨"GET", "/api", 11, [("Origin", "https://example.com")], [], true⟩

/-- A middleware without domains lets the request pass and has no value, so that a chain with
another one behind it is not run as it should be. -/
theorem cors_without_value :
    ((⟨[]⟩ : CorsMiddleware).handle getRequest Response.empty).1 = .flowsOff ∧
      ¬ (⟨[]⟩ : CorsMiddleware).Decides getRequest Response.empty ∧
      ¬ MiddlewarePipeline.InOrder [⟨[]⟩, ⟨["https://example.com"]⟩]
        ((MiddlewarePipeline.ofUses [⟨[]⟩, ⟨["https://example.com"]⟩]).run
          (fun cors : CorsMiddleware => cors.handle getRequest) Response.empty) := by
  have hend : ((⟨[]⟩ : CorsMiddleware).handle getRequest Response.empty).1 = .flowsOff := by
    rw [CorsMiddleware.handle_fst]
    decide
  refine ⟨hend, ?_, ?_⟩
  · rw [CorsMiddleware.decides_iff]
    decide
  · intro h
    rw [MiddlewarePipeline.run, MiddlewarePipeline.chain_ofUses, MiddlewarePipeline.inOrder_iff,
      MiddlewarePipeline.Decided] at h
    split at h
    · next hcall =>
        rw [congrArg Prod.fst hcall] at hend
        cases hend
    · next hcall =>
        rw [congrArg Prod.fst hcall] at hend
        cases hend
    · exact h
    · next hcall =>
        rw [congrArg Prod.fst hcall] at hend
        cases hend

end Brazier
