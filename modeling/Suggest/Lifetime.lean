/-
# Lifetimes

How long a cached thing is good for: whole seconds, and nanoseconds that are less than a second. Time is counted in
nanoseconds.

In JSON a lifetime is the strict record of its fields `secs` and `nanos`. Nanoseconds that make up whole seconds are
carried over, unless that is more seconds than 64 bits hold.
-/

import Suggest.Json.Record
import Suggest.Json.Writing

namespace Suggest

/-- A point in time, in nanoseconds. -/
abbrev Moment := Nat

/-- Seconds and nanoseconds. -/
structure Lifetime where
  seconds : Nat
  nanos : Nat := 0
  deriving DecidableEq, Repr

namespace Lifetime

/-- How many nanoseconds there are in a second. -/
def second : Nat := 1000000000

/-- The longest lifetime there is. -/
def longest : Lifetime := ⟨Json.Reader.maxWord, second - 1⟩

/-- All of a lifetime in nanoseconds. -/
def nanoseconds (l : Lifetime) : Nat := l.seconds * second + l.nanos

/-- The lifetime of seconds and any number of nanoseconds. -/
def carried (seconds nanos : Nat) : Except Json.Fault Lifetime :=
  if seconds + nanos / second ≤ Json.Reader.maxWord then .ok ⟨seconds + nanos / second, nanos % second⟩
  else .error .mismatched

/-- Carrying keeps the time. -/
theorem nanoseconds_of_carried {seconds nanos : Nat} {l : Lifetime} (h : carried seconds nanos = .ok l) :
    l.nanoseconds = seconds * second + nanos := by
  unfold carried at h
  split at h <;> cases h
  have := Nat.div_add_mod nanos second
  simp only [nanoseconds, Nat.add_mul]
  rw [Nat.mul_comm (nanos / second)]
  omega

/-- How a lifetime is read. -/
def reader : Json.Reader Lifetime :=
  Json.Fields.read
    (.cons (.required "secs" (.natural Json.Reader.maxWord)) <|
      .cons (.required "nanos" (.natural 0xFFFFFFFF)) .nil)
    true fun (seconds, nanos, ()) => carried seconds nanos

/-- A lifetime in JSON. -/
def write (l : Lifetime) : List Char :=
  Json.object [("secs", Json.natural l.seconds), ("nanos", Json.natural l.nanos)]

end Lifetime

end Suggest
