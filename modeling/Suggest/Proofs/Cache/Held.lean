/-
# What a cache holds

Whether an entry has expired depends on the time, so what a cache answers changes while nobody writes to it.  What it holds
(`Cache.held`) does not: it is what was last stored under a key, until it is deleted or somebody finds out that it has
expired.

| call | what is held afterwards |
| --- | --- |
| `get` | the same, or nothing (`held_of_held_get`), and nothing else is the answer (`held_of_get`) |
| `set` | what was stored (`held_set`), if its length fits the envelope, or what was held before (`set_of_fails`) |
| `delete` | nothing (`held_delete`) |
-/

import Suggest.Cache
import Suggest.Proofs.SortedMap

namespace Suggest

namespace Envelope

/-- **An envelope is read back,** whatever follows it, if the length of what is in it fits 64 bits. -/
theorem decode?_encode_append (expiry : Int) {payload : Bytes} (h : payload.length < 1 <<< 64) (rest : Bytes) :
    decode? (encode ⟨expiry, payload⟩ ++ rest) = some ⟨signed (expiry % words).toNat, payload⟩ := by
  have hexpiry : LittleEndian.decode (LittleEndian.encode 8 (expiry % words).toNat) = (expiry % words).toNat := by
    have hwords : words = (1 <<< (8 * 8) : Nat) := rfl
    have hless := Int.emod_lt_of_pos expiry (show 0 < words by decide)
    exact LittleEndian.decode_encode (by omega)
  have hlength : LittleEndian.decode (LittleEndian.encode 8 payload.length) = payload.length :=
    LittleEndian.decode_encode (by simpa using h)
  have hraw : encode ⟨expiry, payload⟩ ++ rest =
      LittleEndian.encode 8 (expiry % words).toNat ++ (LittleEndian.encode 8 payload.length ++ (payload ++ rest)) := by
    simp only [encode, List.append_assoc]
  have hsize : (encode ⟨expiry, payload⟩ ++ rest).length = 16 + (payload.length + rest.length) := by
    simp only [hraw, List.length_append, LittleEndian.length_encode]
    omega
  have hfirst : (encode ⟨expiry, payload⟩ ++ rest).take 8 = LittleEndian.encode 8 (expiry % words).toNat := by
    rw [hraw, List.take_left' (LittleEndian.length_encode ..)]
  have htake : ((encode ⟨expiry, payload⟩ ++ rest).drop 8).take 8 = LittleEndian.encode 8 payload.length := by
    rw [hraw, List.drop_left' (LittleEndian.length_encode ..), List.take_left' (LittleEndian.length_encode ..)]
  have hdrop : (encode ⟨expiry, payload⟩ ++ rest).drop 16 = payload ++ rest := by
    rw [hraw, show 16 = 8 + 8 from rfl, ← List.drop_drop, List.drop_left' (LittleEndian.length_encode ..),
      List.drop_left' (LittleEndian.length_encode ..)]
  simp only [decode?, hfirst, htake, hdrop, hlength, hexpiry, hsize]
  rw [if_neg (by simp), List.take_left' rfl]

end Envelope

namespace MemoryCache

/-- The bytes that are held under a key, whether they have expired or not. -/
def held (c : MemoryCache) (key : String) : Option Bytes := (c.entries.get? key).map Entry.payload

theorem held_of_held_erase {c : MemoryCache} {key other : String} {payload : Bytes}
    (h : held ⟨c.entries.erase key⟩ other = some payload) : c.held other = some payload := by
  rw [held, Option.map_eq_some_iff] at h ⊢
  obtain ⟨e, he, hp⟩ := h
  exact ⟨e, SortedMap.get?_of_get?_erase he, hp⟩

/-- What was stored just now is found, if it is good for any time at all. -/
theorem get_set (c : MemoryCache) (now : Moment) (key : String) (payload : Bytes) (lifetime : Lifetime)
    (h : 0 < lifetime.nanoseconds) : ((c.set now key payload lifetime).get now key).1 = some payload := by
  have hfresh : (Entry.mk (expiry? now lifetime) payload).expired now = false := by
    rw [expiry?]
    split
    · simp only [Entry.expired, decide_eq_false_iff_not]
      exact Nat.not_le.2 (Nat.lt_add_of_pos_right h)
    · rfl
  simp [set, get, SortedMap.insert, hfresh]

end MemoryCache

namespace DurableCache

/-- The bytes that are held under a key, whether they have expired or not. -/
def held (c : DurableCache) (key : String) : Option Bytes :=
  ((c.entries.get? key).bind Envelope.decode?).map Envelope.payload

theorem held_of_held_erase {c : DurableCache} {key other : String} {payload : Bytes}
    (h : held ⟨c.entries.erase key⟩ other = some payload) : c.held other = some payload := by
  simp only [held, Option.map_eq_some_iff, Option.bind_eq_some_iff] at h ⊢
  obtain ⟨e, ⟨raw, hraw, he⟩, hp⟩ := h
  exact ⟨e, ⟨raw, SortedMap.get?_of_get?_erase hraw, he⟩, hp⟩

end DurableCache

namespace Cache

/-- The bytes that are held under a key, whether they have expired or not. -/
def held (c : Cache) (key : String) : Option Bytes :=
  match c with
  | .memory m => m.held key
  | .durable d => d.held key

/-- What a cache answers is what it holds. -/
theorem held_of_get {c : Cache} {o : Outage} {now : Moment} {key : String} {payload : Bytes}
    (h : (c.get o now key).1 = .ok (some payload)) : c.held key = some payload := by
  unfold Cache.get at h
  split at h
  · cases h
  cases c with
  | memory m =>
    simp only [MemoryCache.get] at h
    rw [held, MemoryCache.held]
    split at h
    · next e he =>
      rw [he]
      split at h <;> cases h
      rfl
    · cases h
  | durable d =>
    simp only [DurableCache.get] at h
    rw [held, DurableCache.held]
    split at h
    · cases h
    · next raw hraw =>
      split at h
      · cases h
      · next e he =>
        rw [hraw, Option.bind_some, he]
        split at h <;> cases h
        rfl

/-- A look-up makes a cache hold nothing else. -/
theorem held_of_held_get {c : Cache} {o : Outage} {now : Moment} {key other : String} {payload : Bytes}
    (h : (c.get o now key).2.held other = some payload) : c.held other = some payload := by
  unfold Cache.get at h
  split at h
  · exact h
  cases c with
  | memory m =>
    simp only [MemoryCache.get] at h
    split at h
    · split at h
      · exact MemoryCache.held_of_held_erase h
      · exact h
    · exact h
  | durable d =>
    simp only [DurableCache.get] at h
    split at h
    · exact h
    · split at h
      · exact h
      · split at h
        · exact DurableCache.held_of_held_erase h
        · exact h

theorem held_set {c : Cache} {o : Outage} (ho : o.set = false) {now : Moment} {key : String} {payload : Bytes}
    {lifetime : Lifetime} (hlength : payload.length < 1 <<< 64) :
    (c.set o now key payload lifetime).2.held key = some payload := by
  unfold Cache.set
  rw [if_neg (by simp [ho])]
  cases c with
  | memory m => simp [held, MemoryCache.held, MemoryCache.set, SortedMap.insert]
  | durable d =>
    have hdecode := Envelope.decode?_encode_append (Envelope.expiryOf now lifetime) hlength []
    rw [List.append_nil] at hdecode
    simp [held, DurableCache.held, DurableCache.set, SortedMap.insert, hdecode]

/-- A cache that can store nothing stays as it is. -/
theorem set_of_fails (c : Cache) {o : Outage} (ho : o.set = true) (now : Moment) (key : String) (payload : Bytes)
    (lifetime : Lifetime) : (c.set o now key payload lifetime).2 = c := by
  unfold Cache.set
  rw [if_pos ho]

theorem held_delete {c : Cache} {o : Outage} (ho : o.delete = false) (key : String) :
    (c.delete o key).2.held key = none := by
  unfold Cache.delete
  rw [if_neg (by simp [ho])]
  cases c with
  | memory m => simp [held, MemoryCache.held, MemoryCache.delete]
  | durable d => simp [held, DurableCache.held, DurableCache.delete]

theorem held_of_held_delete {c : Cache} {o : Outage} {key other : String} {payload : Bytes}
    (h : (c.delete o key).2.held other = some payload) : c.held other = some payload := by
  unfold Cache.delete at h
  split at h
  · exact h
  cases c with
  | memory m => exact MemoryCache.held_of_held_erase h
  | durable d => exact DurableCache.held_of_held_erase h

end Cache

end Suggest
