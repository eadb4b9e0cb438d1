import Backtest.Json.Printer
import Backtest.Json.Reader
import Backtest.Market

/-!
# Answers over HTTP

A `Service` answers requests about candidates: `POST /backtest` with the report, `POST /validate` with
the rule, and `GET /health` with the version. Everything else is refused. Bodies are compact JSON, except that a
request whose body is too long is told so in a plain text, before anything looks at the body.
-/

namespace Backtest

structure Request where
  method : String
  /-- What is asked for: a path, maybe with a query, maybe behind a scheme and an authority. -/
  target : String
  body : List UInt8

structure Response where
  status : Nat
  contentType : Option String
  body : String
  deriving DecidableEq

namespace Response

/-- An answer with a JSON body. -/
def json (status : Nat) (v : Json) : Response := ⟨status, some "application/json", v.compact⟩

def bare (status : Nat) : Response := ⟨status, none, ""⟩

/-- The answer to a body that is too long. It is no JSON. -/
def tooLong : Response :=
  ⟨413, some "text/plain; charset=utf-8", "Failed to buffer the request body: length limit exceeded"⟩

def ofFailure (f : Failure) : Response := json f.status f.body

def withoutBody (r : Response) : Response := { r with body := "" }

end Response

/-- The path of a target: what stands behind the authority and in front of the query. -/
def Request.path (r : Request) : String :=
  let cs := r.target.toList.takeWhile fun c => c ≠ '?' && c ≠ '#'
  match cs with
  | '/' :: _ => String.ofList cs
  | _ =>
    match cs.dropWhile (· ≠ ':') with
    | ':' :: '/' :: '/' :: rest =>
      match rest.dropWhile (· ≠ '/') with
      | [] => "/"
      | path => String.ofList path
    | _ => String.ofList cs

/-- What answers requests: a source of prices, and the timeframe and the window of all reports. -/
structure Service (σ : Type) where
  source : PriceSource σ
  timeframe : Timeframe
  window : Window

namespace Service

variable {σ : Type}

def version : String := "0.1.0"

/-- The most bytes that a body may have. -/
def bodyLimit : Nat := 2097152

/-- The answer to a question about the service itself. -/
def health : Json := .obj [("status", .str "ok"), ("version", .str version)]

/-- The candidate in a body. -/
def candidate (body : List UInt8) : Except Failure Json :=
  match Json.read body with
  | .ok v => .ok v
  | .error fault =>
    .error (.malformed ("request body is not valid JSON: " ++ fault.message))

/-- The answer with the report on a candidate. -/
def backtest (service : Service σ) (s : σ) (body : List UInt8) : Response × σ :=
  match candidate body with
  | .error failure => (.ofFailure failure, s)
  | .ok v =>
    match service.source.backtest s v service.timeframe service.window with
    | (.ok report, next) => (.json 200 report.toJson, next)
    | (.error failure, next) => (.ofFailure failure, next)

/-- The answer with the rule of a candidate. -/
def validate (service : Service σ) (s : σ) (body : List UInt8) : Response :=
  match candidate body with
  | .error failure => .ofFailure failure
  | .ok v =>
    match service.source.validate s v with
    | .ok rule => .json 200 rule.summary
    | .error failure => .ofFailure failure

/-- The answer to a question about a body, which is not asked if the body is too long. -/
def onBody (s : σ) (body : List UInt8) (question : List UInt8 → Response × σ) : Response × σ :=
  if bodyLimit < body.length then (.tooLong, s) else question body

/-- The answer to a request, with its body. -/
def respond (service : Service σ) (s : σ) (r : Request) : Response × σ :=
  match r.path with
  | "/health" =>
    if r.method = "GET" ∨ r.method = "HEAD" then (.json 200 health, s) else (.bare 405, s)
  | "/backtest" =>
    if r.method = "POST" then onBody s r.body (service.backtest s) else (.bare 405, s)
  | "/validate" =>
    if r.method = "POST" then onBody s r.body fun body => (service.validate s body, s) else (.bare 405, s)
  | _ => (.json 404 (.obj [("error", .str "not found")]), s)

/-- The answer to a request. One that asks for the head alone gets no body. -/
def answer (service : Service σ) (s : σ) (r : Request) : Response × σ :=
  let (response, next) := service.respond s r
  (if r.method = "HEAD" then response.withoutBody else response, next)

end Service

end Backtest
