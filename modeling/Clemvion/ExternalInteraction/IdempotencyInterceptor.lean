import Clemvion.Js.JsonText
import Clemvion.Js.Text
import Clemvion.Library.NumberedNames
import Mathlib.Logic.Function.Basic

/-!
# IdempotencyInterceptor — one answer for one idempotency key

The interceptor looks up what it stored under `<execution>:<route>:<key>`, answers from it when the
body is the one it was stored for, and otherwise runs the handler and stores its outcome.  What is
found in the store is an untrusted text: each way in which it can be unreadable has its own branch.
A handler is the outcome it would have, the digest is a parameter, and the log is left out.
-/

open Clemvion.Js JsonText

namespace Clemvion.ExternalInteraction

/-! ## 1. Requests and outcomes -/

def redisKeyPrefix : String := "interaction:idempotency:"

def maxKeyLength : Nat := 200

def minHttpStatusCode : Int := 100

def maxHttpStatusCode : Int := 599

/-- `v ?? null`. -/
def orNull (v : Value) : Value := if v = .undefined then .null else v

/-- Plain data; as a JavaScript value it has decimal numbers and one property for each key. -/
structure PlainData where
  value : Value
  hasText : HasText (orNull value)
  deriving DecidableEq

inductive Payload
  | data (v : PlainData)
  /-- A cycle or a `BigInt`: `JSON.stringify` throws. -/
  | unserializable
  deriving DecidableEq

inductive HandlerError
  | httpException (status : Int) (response : Payload)
  | other (message : String)
  deriving DecidableEq

/-- How a handler ends: with a value and what `res.statusCode` is then, unless that is no number,
or with an error. -/
inductive Outcome
  | value (statusCode : Option Int) (payload : Payload)
  | error (err : HandlerError)
  deriving DecidableEq

/-- An execution's id as the guard leaves it in the request: a UUID that its token or its row
has. -/
structure ExecutionId where
  value : String
  no_colon : ':' ∉ value.toList
  deriving DecidableEq

/-- The handlers that the interceptor stands before. -/
inductive Route
  | interact | cancel
  deriving DecidableEq

/-- `context.getHandler().name`. -/
def Route.name : Route → String
  | .interact => "interact"
  | .cancel => "cancel"

structure HttpResponseLike where
  /-- `typeof res.status === 'function'`. -/
  hasStatus : Bool
  statusCode : Option Int

structure RedisCondition where
  connected : Bool
  getFails : Bool
  setFails : Bool

def RedisCondition.available (redis : RedisCondition) : Prop :=
  redis.connected = true ∧ redis.getFails = false ∧ redis.setFails = false

instance (redis : RedisCondition) : Decidable redis.available :=
  inferInstanceAs (Decidable (_ ∧ _ ∧ _))

structure Request where
  idempotencyKey : Value
  executionId : Option ExecutionId
  route : Route
  body : Value
  res : HttpResponseLike
  /-- How the handler ends should it run. -/
  handler : Outcome
  redis : RedisCondition

/-! ## 2. Keys and digests -/

def readKey : Value → Option String
  | .str raw =>
    if utf16Length (trim raw) = 0 ∨ utf16Length (trim raw) > maxKeyLength then none
    else some (trim raw)
  | _ => none

/-- What is hashed of a body. -/
def bodyText : Value → String
  | .str raw => raw
  | body => stringify (orNull body)

section Digest

variable (sha256Hex : String → String)

def hashBody (body : Value) : String := sha256Hex (bodyText body)

end Digest

/-- What a stored outcome belongs to. -/
structure Scope where
  executionId : ExecutionId
  route : Route
  rawKey : String
  deriving DecidableEq

def Scope.redisKey (scope : Scope) : String :=
  redisKeyPrefix ++ scope.executionId.value ++ ":" ++ scope.route.name ++ ":" ++ scope.rawKey

/-! ## 3. Entries -/

structure IdempotencyEntry where
  bodyHash : String
  responseJson : String
  statusCode : Int
  isHttpStatusCode : minHttpStatusCode ≤ statusCode ∧ statusCode ≤ maxHttpStatusCode

/-- The entry that a parsed value is, if it has the shape of one. -/
def isIdempotencyEntry (value : Value) : Option IdempotencyEntry :=
  match value.field "bodyHash", value.field "responseJson", value.field "statusCode" with
  | .str bodyHash, .str responseJson, .num (.finite q) =>
    if h : q.den = 1 ∧ minHttpStatusCode ≤ q.num ∧ q.num ≤ maxHttpStatusCode then
      some ⟨bodyHash, responseJson, q.num, h.2⟩
    else none
  | _, _, _ => none

def isErrorStatusCacheable (statusCode : Int) : Bool := statusCode = 409 || statusCode = 410

theorem orNull_of_isJson {v : Value} (h : IsJson v) : orNull v = v := if_neg h.ne_undefined

theorem hasText_orNull_of_parse {text : String} {v : Value} (h : parse text = some v) :
    HasText (orNull v) := by
  rw [orNull_of_isJson (parse_spec h).1]
  exact HasText.of_parse h

/-- `JSON.parse`, which gives plain data. -/
def parsePayload (text : String) : Option PlainData :=
  match h : parse text with
  | some v => some ⟨v, hasText_orNull_of_parse h⟩
  | none => none

/-- `JSON.stringify(payload ?? null)`. -/
def PlainData.json (v : PlainData) : String := stringify (orNull v.value)

/-- `JSON.stringify(entry)`. -/
def entryText (bodyHash responseJson : String) (statusCode : Int) : String :=
  stringify (.obj [("bodyHash", .str bodyHash), ("responseJson", .str responseJson),
    ("statusCode", .num (.finite statusCode))])

/-- The texts in Redis, by their keys. -/
abbrev Cache := String → Option String

def storeEntry (cache : Cache) (redis : RedisCondition) (redisKey bodyHash : String)
    (statusCode : Int) : Payload → Cache
  | .unserializable => cache
  | .data payload =>
    if redis.setFails then cache
    else Function.update cache redisKey (some (entryText bodyHash payload.json statusCode))

/-! ## 4. The interceptor -/

def cacheTapped (cache : Cache) (redis : RedisCondition) (redisKey bodyHash : String) :
    Outcome → Cache
  | .value statusCode payload =>
    if statusCode.getD 200 < 200 ∨ statusCode.getD 200 ≥ 300 then cache
    else storeEntry cache redis redisKey bodyHash (statusCode.getD 200) payload
  | .error (.httpException status response) =>
    if isErrorStatusCacheable status then storeEntry cache redis redisKey bodyHash status response
    else cache
  | .error (.other _) => cache

/-- Where an answer comes from. -/
inductive Served
  | byHandler | fromCache | rejected
  deriving DecidableEq

structure Reply where
  answer : Outcome
  served : Served
  cache : Cache

def keyConflictResponse : Value :=
  .obj [("error", .obj [("code", .str "IDEMPOTENCY_KEY_CONFLICT"),
    ("message", .str "Idempotency-Key 가 이미 다른 body 와 사용되었습니다.")])]

/-- `new ConflictException(..)`. -/
def keyConflict : HandlerError :=
  .httpException 409 (.data ⟨keyConflictResponse, by simp [HasText, orNull, keyConflictResponse,
    Value.jsonRoundTrip, Value.jsonFields, IsJson, FieldsAreJson, DistinctKeys, FieldsAreDistinct]⟩)

/-- The handler without the cache. -/
def passThrough (cache : Cache) (r : Request) : Reply := ⟨r.handler, .byHandler, cache⟩

def processFresh (cache : Cache) (r : Request) (redisKey bodyHash : String) : Reply :=
  ⟨r.handler, .byHandler, cacheTapped cache r.redis redisKey bodyHash r.handler⟩

/-- The recorded outcome again: an error goes out as an error, so that its status is kept. -/
def replay (r : Request) (statusCode : Int) (payload : PlainData) : Outcome :=
  if isErrorStatusCacheable statusCode then .error (.httpException statusCode (.data payload))
  else .value (if r.res.hasStatus then some statusCode else r.res.statusCode) (.data payload)

def resolveCacheHit (cache : Cache) (r : Request) (redisKey bodyHash : String) :
    Option String → Reply
  | none => processFresh cache r redisKey bodyHash
  | some cachedJson =>
    if cachedJson = "" then processFresh cache r redisKey bodyHash
    else
      match parse cachedJson with
      | none => processFresh cache r redisKey bodyHash
      | some parsed =>
        match isIdempotencyEntry parsed with
        | none => processFresh cache r redisKey bodyHash
        | some cached =>
          -- before the payload is looked at: a damaged entry still knows which body it was for
          if cached.bodyHash ≠ bodyHash then ⟨.error keyConflict, .rejected, cache⟩
          else
            match parsePayload cached.responseJson with
            | none => processFresh cache r redisKey bodyHash
            | some payload => ⟨replay r cached.statusCode payload, .fromCache, cache⟩

section Interceptor

variable (sha256Hex : String → String)

def intercept (cache : Cache) (r : Request) : Reply :=
  match readKey r.idempotencyKey with
  | none => passThrough cache r
  | some rawKey =>
    if r.redis.connected then
      match r.executionId with
      | none => passThrough cache r
      | some executionId =>
        if executionId.value = "" then passThrough cache r
        else
          resolveCacheHit cache r (Scope.redisKey ⟨executionId, r.route, rawKey⟩)
            (hashBody sha256Hex r.body)
            (if r.redis.getFails then none
              else cache (Scope.redisKey ⟨executionId, r.route, rawKey⟩))
    else passThrough cache r

/-- The store after a sequence of requests. -/
def cacheAfter (cache : Cache) (requests : List Request) : Cache :=
  requests.foldl (fun cache r => (intercept sha256Hex cache r).cache) cache

end Interceptor

end Clemvion.ExternalInteraction
