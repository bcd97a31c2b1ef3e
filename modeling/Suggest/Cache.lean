/-
# Caches

A cache keeps bytes under a key for some time, in memory or durably. Durably that is counted in whole seconds. Otherwise
both kinds answer alike, as long as nobody writes around the envelopes of a durable one.

Calls that are out of order fail without touching the cache.
-/

import Suggest.Cache.Durable
import Suggest.Cache.Memory

namespace Suggest

/-- A cache of either kind. -/
inductive Cache where
  | memory (c : MemoryCache)
  | durable (c : DurableCache)
  deriving DecidableEq

namespace Cache

/-- Why a call fails: it is out of order, or the entry under the key cannot be read. -/
inductive Failure where
  | backend
  | entry
  deriving DecidableEq, Repr

/-- The wording of a failure, with something to say about what is behind it. -/
def Failure.report (cause : String) : Failure → String
  | .backend => "cache backend error: " ++ cause
  | .entry => "cache entry encoding error: " ++ cause

/-- The wording of a failure for those who need not know what is behind it. -/
def Failure.message (f : Failure) : String := f.report "<inner>"

/-- The calls that are out of order. -/
structure Outage where
  get : Bool := false
  set : Bool := false
  delete : Bool := false
  flush : Bool := false
  deriving DecidableEq, Repr

/-- The bytes under a key. -/
def get (c : Cache) (o : Outage) (now : Moment) (key : String) : Except Failure (Option Bytes) × Cache :=
  if o.get then (.error .backend, c)
  else match c with
    | .memory m => let (found, m) := m.get now key; (.ok found, .memory m)
    | .durable d => let (found, d) := d.get now key; (found.mapError fun _ => .entry, .durable d)

/-- Store bytes under a key. -/
def set (c : Cache) (o : Outage) (now : Moment) (key : String) (payload : Bytes) (lifetime : Lifetime) :
    Except Failure Unit × Cache :=
  if o.set then (.error .backend, c)
  else match c with
    | .memory m => (.ok (), .memory (m.set now key payload lifetime))
    | .durable d => (.ok (), .durable (d.set now key payload lifetime))

/-- Take the entry under a key away. -/
def delete (c : Cache) (o : Outage) (key : String) : Except Failure Unit × Cache :=
  if o.delete then (.error .backend, c)
  else match c with
    | .memory m => (.ok (), .memory (m.delete key))
    | .durable d => (.ok (), .durable (d.delete key))

/-- Write down what may not be written down yet, which is nothing here. -/
def flush (_ : Cache) (o : Outage) : Except Failure Unit := if o.flush then .error .backend else .ok ()

end Cache

end Suggest
