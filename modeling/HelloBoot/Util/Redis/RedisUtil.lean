import HelloBoot.Java.Call
import Mathlib.Algebra.Order.Ring.Int

/-!
# `RedisUtil`

Each helper borrows a connection from `jedisPool`, sends one command and returns the
connection. A `World` holds what the pool has lent, and the environment (the server, the
network) that decides which calls return.
-/

namespace HelloBoot.RedisUtil

inductive TimeUnit where
  | nanoseconds
  | microseconds
  | milliseconds
  | seconds
  | minutes
  | hours
  | days
  deriving DecidableEq

/-- A `long`, or the nearest one. -/
def saturated (n : ℤ) : ℤ := max (-2 ^ 63) (min n (2 ^ 63 - 1))

def TimeUnit.toSeconds (duration : ℤ) : TimeUnit → ℤ
  | nanoseconds => duration.tdiv 1000000000
  | microseconds => duration.tdiv 1000000
  | milliseconds => duration.tdiv 1000
  | seconds => duration
  | minutes => saturated (duration * 60)
  | hours => saturated (duration * 3600)
  | days => saturated (duration * 86400)

/-- The pool and the commands of Jedis, on an environment `β`. -/
structure JedisApi (β : Type) where
  getResource : EStateM Throwable β Unit
  set : (k v : Option String) → EStateM Throwable β Unit
  setEx : (k v : Option String) → (ex : ℤ) → EStateM Throwable β Unit
  get : (k : Option String) → EStateM Throwable β (Option String)
  del : (k : Option String) → EStateM Throwable β Unit
  returnResource : EStateM Throwable β Unit

structure World (β : Type) where
  borrowed : ℕ
  env : β

def maxTotal : ℕ := 128

variable {β α : Type} (api : JedisApi β)

/-- `jedisPool.getResource()`. When all connections are borrowed, it throws at the end of
`maxWaitMillis`. -/
def getResource : EStateM Throwable (World β) Unit := fun w =>
  if w.borrowed < maxTotal then
    match api.getResource w.env with
    | .ok _ env => .ok () ⟨w.borrowed + 1, env⟩
    | .error t env => .error t ⟨w.borrowed, env⟩
  else .error .unchecked w

def send (command : EStateM Throwable β α) : EStateM Throwable (World β) α := fun w =>
  match command w.env with
  | .ok a env => .ok a ⟨w.borrowed, env⟩
  | .error t env => .error t ⟨w.borrowed, env⟩

/-- `returnResource(jedisPool, jedis)`: the pool takes the connection back, or discards it
and throws. -/
def returnResource : EStateM Throwable (World β) Unit := fun w =>
  match api.returnResource w.env with
  | .ok _ env => .ok () ⟨w.borrowed - 1, env⟩
  | .error t env => .error t ⟨w.borrowed - 1, env⟩

def withJedis (command : EStateM Throwable β α) : EStateM Throwable (World β) α := do
  getResource api
  let res ← send command
  returnResource api
  return res

def set (k v : Option String) : EStateM Throwable (World β) Unit := withJedis api (api.set k v)

def setEx (k v : Option String) (ex : ℤ) : EStateM Throwable (World β) Unit :=
  withJedis api (api.setEx k v ex)

def setExpire (k v : Option String) (expire : ℤ) (timeUnit : Option TimeUnit) :
    EStateM Throwable (World β) Unit :=
  match timeUnit with
  | none => throw .nullPointer
  | some timeUnit => setEx api k v (timeUnit.toSeconds expire)

def get (k : Option String) : EStateM Throwable (World β) (Option String) :=
  withJedis api (api.get k)

def del (k : Option String) : EStateM Throwable (World β) Unit := withJedis api (api.del k)

end HelloBoot.RedisUtil
