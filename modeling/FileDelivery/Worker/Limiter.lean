import FileDelivery.Control.Text

namespace FileDelivery.Worker.Limiter
open FileDelivery.Control

structure RedisConfig where
  limit : Int
  /-- In nanoseconds. -/
  window : Int
  keyPrefix : Text

structure RedisLimiter where
  limit : Int
  window : Int
  keyPrefix : Text
  limit_pos : 0 < limit
  window_pos : 0 < window

def NewRedisLimiter (cfg : RedisConfig) : Except String RedisLimiter :=
  if hl : cfg.limit ≤ 0 then .error "redis limiter limit must be positive"
  else if hw : cfg.window ≤ 0 then .error "redis limiter window must be positive"
  else .ok {
    limit := cfg.limit
    window := cfg.window
    keyPrefix := if cfg.keyPrefix = [] then "data-plane:limiter".toList else cfg.keyPrefix
    limit_pos := Int.not_le.mp hl
    window_pos := Int.not_le.mp hw }

/-- The value of a Redis key, which stays for ever where it has no expiry. -/
structure Counter where
  value : Nat
  expiry : Option Nat
  deriving DecidableEq, Repr

abbrev Redis := Text → Option Counter

def Counter.live (now : Nat) (c : Counter) : Bool := c.expiry.all (now < ·)

/-- A key disappears at its expiry. -/
def Redis.get (redis : Redis) (now : Nat) (key : Text) : Option Counter :=
  (redis key).filter (Counter.live now)

/-- INCR creates a key without an expiry, and keeps the one of a key that exists. -/
def Redis.incr (redis : Redis) (now : Nat) (key : Text) : Redis × Nat :=
  let counter : Counter :=
    match redis.get now key with
    | none => ⟨1, none⟩
    | some c => { c with value := c.value + 1 }
  (fun k => if k = key then some counter else redis k, counter.value)

def Redis.pexpire (redis : Redis) (now : Nat) (key : Text) (milliseconds : Nat) : Redis :=
  fun k => if k = key then (redis.get now k).map ({ · with expiry := some (now + milliseconds) })
    else redis k

def fixedWindowScript (redis : Redis) (now : Nat) (key : Text) (limit : Int) (milliseconds : Nat) :
    Redis × Int :=
  let (redis, current) := redis.incr now key
  let redis := if current = 1 then redis.pexpire now key milliseconds else redis
  if (current : Int) > limit then (redis, 0) else (redis, 1)

/-- `ErrLimited` with the parts of its text. -/
structure ErrLimited where
  key : Text
  limit : Int
  window : Int
  deriving DecidableEq, Repr

namespace RedisLimiter

def windowMilliseconds (l : RedisLimiter) : Nat :=
  let milliseconds := l.window / 1000000
  if milliseconds ≤ 0 then 1 else milliseconds.toNat

/-- The key that an `Allow` counts under. -/
def redisKey (l : RedisLimiter) (key : Text) : Text :=
  l.keyPrefix ++ ':' :: (if key = [] then "global".toList else key)

def Allow (l : RedisLimiter) (redis : Redis) (now : Nat) (key : Text) :
    Redis × Except ErrLimited Unit :=
  let (redis, result) := fixedWindowScript redis now (l.redisKey key) l.limit l.windowMilliseconds
  (redis, if result ≠ 1 then
      .error ⟨if key = [] then "global".toList else key, l.limit, l.window⟩
    else .ok ())

end RedisLimiter

/-- A call of `Allow` that has returned, with the time at which Redis ran its script. -/
structure Call where
  worker : Nat
  key : Text
  time : Nat
  /-- Its script has created the key. -/
  created : Bool
  result : Except ErrLimited Unit

def Call.granted (c : Call) : Bool := c.result.isOk

/-- Workers with limiters of one configuration, and one Redis. -/
structure State where
  redis : Redis
  now : Nat
  calls : List Call

def initial (now : Nat) : State := ⟨fun _ => none, now, []⟩

inductive Action where
  /-- Milliseconds pass. -/
  | pass (milliseconds : Nat)
  | allow (worker : Nat) (key : Text)
  deriving DecidableEq, Repr

def step (l : RedisLimiter) (s : State) : Action → Option State
  | .pass milliseconds => some { s with now := s.now + milliseconds }
  | .allow worker key =>
    let (redis, result) := l.Allow s.redis s.now key
    some { s with
      redis := redis
      calls := s.calls ++ [{
        worker := worker
        key := l.redisKey key
        time := s.now
        created := (s.redis.get s.now (l.redisKey key)).isNone
        result := result }] }

end FileDelivery.Worker.Limiter
