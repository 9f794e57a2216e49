import Mathlib.Algebra.Order.Field.Rat
import Ferrite.Lib.Table
import Ferrite.Core.Addr

/-!
# Who may ask

`dns/src/gate.rs`: the access lists and the limit on queries per client and minute.
Instants are nanoseconds; a bucket's tokens are exact here, floating point there.
-/

namespace Ferrite.Dns

/-- `Verdict` of the client gate. -/
inductive Verdict where
  | pass
  | drop
  | refuse
deriving DecidableEq, Repr

/-- `Acl`. -/
structure Acl where
  allowed : List IpNetwork
  denied : List IpNetwork
deriving DecidableEq, Repr

/-- `Bucket`, without the note of its last warning. -/
structure Bucket where
  tokens : ℚ
  since : ℕ
deriving DecidableEq

/-- `ClientGate`. -/
structure ClientGate where
  hasAcl : Bool
  acl : Acl
  perMinute : UInt32
  buckets : Table IpAddr Bucket

/-- `is_loopback`. -/
def isLoopback : IpAddr → Bool
  | .v4 ip => ip.a == 127
  | .v6 ip => ip.octets == List.replicate 15 0 ++ [1]

namespace ClientGate

/-- `set_acl`: entries that do not parse are skipped. -/
def setAcl (g : ClientGate) (allowed denied : List Text) : ClientGate :=
  let acl : Acl := ⟨allowed.filterMap IpNetwork.parse, denied.filterMap IpNetwork.parse⟩
  { g with acl := acl, hasAcl := acl.allowed ≠ [] || acl.denied ≠ [] }

/-- `ClientGate::new`. -/
def new (rateLimit : UInt32) (allowed denied : List Text) : ClientGate :=
  setAcl ⟨false, ⟨[], []⟩, rateLimit, ∅⟩ allowed denied

/-- `set_rate_limit`: clients start again from a full allowance. -/
def setRateLimit (g : ClientGate) (perMinute : UInt32) : ClientGate :=
  { g with perMinute := perMinute, buckets := ∅ }

/-- `admits`: denied wins. -/
def admits (g : ClientGate) (ip : IpAddr) : Bool :=
  if g.acl.denied.any fun n => n.contains ip then false
  else g.acl.allowed.isEmpty || g.acl.allowed.any fun n => n.contains ip

/-- `take`: one token from the client's bucket, which holds a minute's worth and refills
all the time. -/
def take (g : ClientGate) (ip : IpAddr) (now : ℕ) : Bool × ClientGate :=
  let capacity : ℚ := g.perMinute.toNat
  let bucket := (g.buckets.lookup ip).getD ⟨capacity, now⟩
  let elapsed : ℚ := ((now - bucket.since : ℕ) : ℚ) / 10 ^ 9
  let tokens := min (bucket.tokens + elapsed * capacity / 60) capacity
  let ok := 1 ≤ tokens
  (ok, { g with buckets := g.buckets.insert ip ⟨if ok then tokens - 1 else tokens, now⟩ })

/-- `check`, without its counters. -/
def check (g : ClientGate) (ip : IpAddr) (now : ℕ) : Verdict × ClientGate :=
  let ip := unmapV4 ip
  if isLoopback ip then (.pass, g)
  else if g.hasAcl && !g.admits ip then (.drop, g)
  else if 0 < g.perMinute then
    let (ok, g) := g.take ip now
    (if ok then .pass else .refuse, g)
  else (.pass, g)

/-- `sweep`: clients whose allowance has refilled are forgotten. -/
def sweep (g : ClientGate) (now : ℕ) : ClientGate :=
  if g.perMinute = 0 then { g with buckets := ∅ }
  else { g with buckets := g.buckets.retain fun _ b => now - b.since < 60 * 10 ^ 9 }

end ClientGate

end Ferrite.Dns
