/-
# Caches in memory

Each entry is kept with the moment it expires. An entry that would expire later than a clock can show never does.
Reading an expired entry takes it away.
-/

import Suggest.Lifetime
import Suggest.SortedMap
import Suggest.Text.Utf8

namespace Suggest

/-- An entry in memory: when it expires, if ever, and its bytes. -/
structure MemoryCache.Entry where
  expiry : Option Moment
  payload : Bytes
  deriving DecidableEq

/-- Entries by key. -/
structure MemoryCache where
  entries : SortedMap String MemoryCache.Entry := ∅
  deriving DecidableEq

namespace MemoryCache

instance : Inhabited MemoryCache := ⟨{}⟩

/-- The last moment that a clock can show. -/
def latest : Moment := 0x7FFFFFFFFFFFFFFF * Lifetime.second + (Lifetime.second - 1)

/-- When something expires that is stored now. -/
def expiry? (now : Moment) (lifetime : Lifetime) : Option Moment :=
  if now + lifetime.nanoseconds ≤ latest then some (now + lifetime.nanoseconds) else none

/-- Whether an entry has expired. -/
def Entry.expired (e : Entry) (now : Moment) : Bool :=
  match e.expiry with
  | some moment => moment ≤ now
  | none => false

/-- The bytes under a key. -/
def get (c : MemoryCache) (now : Moment) (key : String) : Option Bytes × MemoryCache :=
  match c.entries.get? key with
  | some e => if e.expired now then (none, ⟨c.entries.erase key⟩) else (some e.payload, c)
  | none => (none, c)

/-- Store bytes under a key. -/
def set (c : MemoryCache) (now : Moment) (key : String) (payload : Bytes) (lifetime : Lifetime) : MemoryCache :=
  ⟨c.entries.insert key ⟨expiry? now lifetime, payload⟩⟩

/-- Take the entry under a key away. -/
def delete (c : MemoryCache) (key : String) : MemoryCache := ⟨c.entries.erase key⟩

/-- How many entries there are, expired ones that nobody has read included. -/
def size (c : MemoryCache) : Nat := c.entries.size

end MemoryCache

end Suggest
