/-
# Durable caches

A durable cache keeps raw bytes under each key. The bytes are an envelope around the stored ones:

| bytes | meaning |
| ---: | --- |
| 8 | the second in which the entry expires, as a signed little-endian number |
| 8 | how many bytes are stored, as an unsigned little-endian number |
| so many | the stored bytes |
| any | not looked at |

An expiry beyond the greatest signed number is that number. Reading an expired entry takes it away, and an envelope that
is too short is no entry at all.
-/

import Suggest.Lifetime
import Suggest.LittleEndian
import Suggest.SortedMap

namespace Suggest

/-- What is stored under a key of a durable cache. -/
structure Envelope where
  expiry : Int
  payload : Bytes
  deriving DecidableEq

namespace Envelope

/-- The greatest second that an envelope can name. -/
def latest : Int := 0x7FFFFFFFFFFFFFFF

/-- How many numbers 64 bits hold. -/
def words : Int := 0x10000000000000000

/-- The second in which something expires that is stored now. -/
def expiryOf (now : Moment) (lifetime : Lifetime) : Int :=
  min ((now / Lifetime.second : Nat) + min (lifetime.seconds : Int) latest) latest

/-- The bytes of an envelope. -/
def encode (e : Envelope) : Bytes :=
  LittleEndian.encode 8 (e.expiry % words).toNat ++ (LittleEndian.encode 8 e.payload.length ++ e.payload)

/-- The signed number with the same bits as a natural number with 64 bits. -/
def signed (n : Nat) : Int := if n ≤ latest then n else n - words

/-- The envelope that bytes start with. -/
def decode? (raw : Bytes) : Option Envelope :=
  let length := LittleEndian.decode ((raw.drop 8).take 8)
  let rest := raw.drop 16
  if raw.length < 16 || rest.length < length then none
  else some ⟨signed (LittleEndian.decode (raw.take 8)), rest.take length⟩

end Envelope

/-- Raw bytes by key. -/
structure DurableCache where
  entries : SortedMap String Bytes := ∅
  deriving DecidableEq

namespace DurableCache

instance : Inhabited DurableCache := ⟨{}⟩

/-- The bytes under a key, unless what is there is no envelope. -/
def get (c : DurableCache) (now : Moment) (key : String) : Except Unit (Option Bytes) × DurableCache :=
  match c.entries.get? key with
  | none => (.ok none, c)
  | some raw =>
    match Envelope.decode? raw with
    | none => (.error (), c)
    | some e =>
      if e.expiry ≤ (now / Lifetime.second : Nat) then (.ok none, ⟨c.entries.erase key⟩)
      else (.ok (some e.payload), c)

/-- Store bytes under a key. -/
def set (c : DurableCache) (now : Moment) (key : String) (payload : Bytes) (lifetime : Lifetime) : DurableCache :=
  ⟨c.entries.insert key (Envelope.encode ⟨Envelope.expiryOf now lifetime, payload⟩)⟩

/-- Store raw bytes under a key, without an envelope around them. -/
def setRaw (c : DurableCache) (key : String) (raw : Bytes) : DurableCache := ⟨c.entries.insert key raw⟩

/-- Take the entry under a key away. -/
def delete (c : DurableCache) (key : String) : DurableCache := ⟨c.entries.erase key⟩

end DurableCache

end Suggest
