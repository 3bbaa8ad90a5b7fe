import FileDelivery.Control.IdempotencyGuard
import FileDelivery.Library.Claims

namespace FileDelivery.Control
open FileDelivery.Library

/-- The claims that Redis holds; times are in milliseconds. -/
abbrev Redis := Claims.Store Text Text

/-- SET NX EX, which refuses a time to live of zero. -/
def Redis.setNxEx (redis : Redis) (now : Nat) (key token : Text) (ttl_seconds : Nat) :
    Option (Redis × Bool) :=
  if ttl_seconds = 0 then none
  else some (Claims.setIfAbsent redis now key token (1000 * ttl_seconds))

namespace RedisLease

abbrev LeaseClaim := Claims.Claim Text Text

def _lease_key (resource : Text) : Text :=
  let compact := (IdempotencyGuard.squeeze false (strip resource)).take 160
  "lease:v1:".toList ++ (if compact = [] then ['_'] else compact)

/-- `none` where the call raises. -/
def acquire (redis : Redis) (now ttl_seconds : Nat) (resource token : Text) :
    Option (Redis × LeaseClaim) :=
  let key := _lease_key resource
  (redis.setNxEx now key token ttl_seconds).map (fun (redis, acquired) =>
    (redis, ⟨key, token, acquired⟩))

/-- EXPIRE takes a time to live of zero as the end of the key. -/
def refresh (redis : Redis) (now ttl_seconds : Nat) (claim : LeaseClaim) : Redis × Bool :=
  Claims.refresh redis now claim (1000 * ttl_seconds)

def release (redis : Redis) (now : Nat) (claim : LeaseClaim) : Redis :=
  Claims.release redis now claim

example : _lease_key " delivery result " = ("lease:v1:delivery_result" : Text) := by decide

end RedisLease

namespace RedisIdempotencyGuard

abbrev IdempotencyClaim := Claims.Claim Text Text

/-- `none` where the call raises. -/
def acquire (redis : Redis) (now ttl_seconds : Nat) (operation identity token : Text) :
    Option (Redis × IdempotencyClaim) :=
  let key := IdempotencyGuard._guard_key operation identity
  (redis.setNxEx now key token ttl_seconds).map (fun (redis, acquired) =>
    (redis, ⟨key, token, acquired⟩))

def release (redis : Redis) (now : Nat) (claim : IdempotencyClaim) : Redis :=
  Claims.release redis now claim

end RedisIdempotencyGuard

/-- The operations that endpoints guard. -/
inductive GuardedOperation where
  | create_task
  | upload_task
  deriving DecidableEq, Repr

def GuardedOperation.name : GuardedOperation → Text
  | .create_task => "create_task"
  | .upload_task => "upload_task"

/-- A request as far as its claim depends on it; `key` is an idempotency key or a task id. -/
structure GuardedRequest where
  operation : GuardedOperation
  tenant_id : Text
  key : Text
  deriving DecidableEq, Repr

def GuardedRequest.identity (r : GuardedRequest) : Text := r.tenant_id ++ [':'] ++ r.key

def GuardedRequest.guard_key (r : GuardedRequest) : Text :=
  IdempotencyGuard._guard_key r.operation.name r.identity

namespace RedisClients

/-- What a client asks a claim for. -/
inductive Purpose where
  | lease (resource : Text)
  | request (r : GuardedRequest)
  deriving DecidableEq, Repr

/-- The key that it is asked for at. -/
def Purpose.key : Purpose → Text
  | .lease resource => RedisLease._lease_key resource
  | .request r => r.guard_key

abbrev Tracked := Claims.Tracked Purpose Text Text

/-- Redis, and every claim that its clients have ever asked for. -/
structure State where
  now : Nat
  redis : Redis
  claims : List Tracked

def State.start (now : Nat) : State := ⟨now, fun _ => none, []⟩

/-- A client calls `acquire`, or one of the methods on the claim with this token; or time passes.
Each client has its own setting of the time to live. -/
inductive Action where
  | acquire (purpose : Purpose) (ttl_seconds : Nat) (token : Text)
  | refresh (token : Text) (ttl_seconds : Nat)
  | release (token : Text)
  | pass (milliseconds : Nat)
  deriving DecidableEq, Repr

def acquire (s : State) (ttl_seconds : Nat) (token : Text) :
    Purpose → Option (Redis × Claims.Claim Text Text)
  | .lease resource => RedisLease.acquire s.redis s.now ttl_seconds resource token
  | .request r =>
    RedisIdempotencyGuard.acquire s.redis s.now ttl_seconds r.operation.name r.identity token

def step (s : State) : Action → Option State
  | .acquire purpose ttl_seconds token =>
    (acquire s ttl_seconds token purpose).map (fun (redis, claim) =>
      { s with
        redis := redis
        claims := s.claims ++ [⟨purpose, claim, false, s.now + 1000 * ttl_seconds⟩] })
  | .refresh token ttl_seconds =>
    (s.claims.find? (·.claim.token == token)).bind (fun t =>
      match t.owner with
      | .lease _ =>
        let (redis, refreshed) := RedisLease.refresh s.redis s.now ttl_seconds t.claim
        some { s with
          redis := redis
          claims := Claims.follow token
            (Claims.Tracked.refreshed s.now (1000 * ttl_seconds) refreshed) s.claims }
      | .request _ => none)
  | .release token =>
    (s.claims.find? (·.claim.token == token)).map (fun t =>
      let redis := match t.owner with
        | .lease _ => RedisLease.release s.redis s.now t.claim
        | .request _ => RedisIdempotencyGuard.release s.redis s.now t.claim
      { s with
        redis := redis
        claims := Claims.follow token Claims.Tracked.dropped s.claims })
  | .pass milliseconds => some { s with now := s.now + milliseconds }

/-- No two claims are given the same token. -/
def Fresh (s : State) : Action → Prop
  | .acquire _ _ token => ∀ t ∈ s.claims, t.claim.token ≠ token
  | _ => True

instance (s : State) : (a : Action) → Decidable (Fresh s a)
  | .acquire _ _ token => inferInstanceAs (Decidable (∀ t ∈ s.claims, t.claim.token ≠ token))
  | .refresh _ _ | .release _ | .pass _ => .isTrue trivial

end RedisClients
end FileDelivery.Control
