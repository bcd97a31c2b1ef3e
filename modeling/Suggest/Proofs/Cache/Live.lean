/-
# What a cache answers with

A cache answers with the bytes under a key exactly if they have not expired (`Cache.get_eq_ok_some_iff`).  In a durable cache
they stand in an envelope at the beginning of the raw bytes: its expiry and the length of what is in it are read from 16 bytes,
and what follows it does not matter (`Envelope.decode?_eq_some_iff`).  So any raw bytes are an envelope and something behind it,
or no entry at all.

What has expired stays expired.  Hence reading the cache, which takes expired entries away, makes no difference to any answer
that it gives from then on (`Cache.get_get`).
-/

import Suggest.Proofs.Cache.Held
import Suggest.Proofs.Outcome

namespace Suggest

namespace LittleEndian

theorem decode_lt (bs : Bytes) : decode bs < 1 <<< (8 * bs.length) := by
  induction bs with
  | nil => decide
  | cons b rest ih =>
    have hpow : 1 <<< (8 * (rest.length + 1)) = 256 * 1 <<< (8 * rest.length) := by
      rw [Nat.mul_succ, Nat.shiftLeft_add, Nat.shiftLeft_eq _ 8]
      omega
    have hbyte := b.toNat_lt
    rw [decode, List.length_cons, hpow]
    omega

/-- Bytes are written as they were read. -/
theorem encode_decode (bs : Bytes) : encode bs.length (decode bs) = bs := by
  induction bs with
  | nil => rfl
  | cons b rest ih =>
    have hbyte := b.toNat_lt
    have hlow : (b.toNat + 256 * decode rest) % 256 = b.toNat := by omega
    have hhigh : (b.toNat + 256 * decode rest) / 256 = decode rest := by omega
    rw [List.length_cons, decode, encode, hlow, hhigh, ih, UInt8.ofNat_toNat]

end LittleEndian

namespace Envelope

/-- Whether the numbers of an envelope fit 64 bits, the expiry with its sign. -/
structure Fits (e : Envelope) : Prop where
  least : -latest ≤ e.expiry + 1
  greatest : e.expiry ≤ latest
  length : e.payload.length < 1 <<< 64

/-- A signed number is read back from its bits. -/
theorem signed_emod {n : Int} (hleast : -latest ≤ n + 1) (hgreatest : n ≤ latest) : signed (n % words).toNat = n := by
  have hlatest : latest = 0x7FFFFFFFFFFFFFFF := rfl
  rw [signed, show words = 0x10000000000000000 from rfl]
  split <;> omega

theorem signed_bounds {n : Nat} (h : n < 1 <<< 64) :
    -latest ≤ signed n + 1 ∧ signed n ≤ latest ∧ (signed n % words).toNat = n := by
  have hlatest : latest = 0x7FFFFFFFFFFFFFFF := rfl
  rw [signed, show words = 0x10000000000000000 from rfl]
  split <;> omega

/-- **Raw bytes are read as an envelope exactly if they begin with it.** -/
theorem decode?_eq_some_iff {raw : Bytes} {e : Envelope} :
    decode? raw = some e ↔ e.Fits ∧ ∃ rest, raw = encode e ++ rest := by
  constructor
  · intro h
    simp only [decode?, Option.ite_none_left_eq_some, Bool.or_eq_true, decide_eq_true_eq, not_or, Nat.not_lt,
      Option.some.injEq] at h
    obtain ⟨⟨hlong, henough⟩, rfl⟩ := h
    have hfirst : (raw.take 8).length = 8 := by
      rw [List.length_take]
      omega
    have hsecond : ((raw.drop 8).take 8).length = 8 := by
      rw [List.length_take, List.length_drop]
      omega
    have hexpiry := LittleEndian.decode_lt (raw.take 8)
    have hlength := LittleEndian.decode_lt ((raw.drop 8).take 8)
    rw [hfirst] at hexpiry
    rw [hsecond] at hlength
    obtain ⟨hleast, hgreatest, hbits⟩ := signed_bounds hexpiry
    have hpayload : ((raw.drop 16).take (LittleEndian.decode ((raw.drop 8).take 8))).length =
        LittleEndian.decode ((raw.drop 8).take 8) := List.length_take_of_le henough
    refine ⟨⟨hleast, hgreatest, by rw [hpayload]; exact hlength⟩,
      (raw.drop 16).drop (LittleEndian.decode ((raw.drop 8).take 8)), ?_⟩
    have hwritten : LittleEndian.encode 8 (LittleEndian.decode (raw.take 8)) = raw.take 8 := by
      simpa only [hfirst] using LittleEndian.encode_decode (raw.take 8)
    have hwritten' : LittleEndian.encode 8 (LittleEndian.decode ((raw.drop 8).take 8)) = (raw.drop 8).take 8 := by
      simpa only [hsecond] using LittleEndian.encode_decode ((raw.drop 8).take 8)
    simp only [encode, hbits, hpayload, hwritten, hwritten', List.append_assoc, List.take_append_drop]
    rw [show 16 = 8 + 8 from rfl, ← List.drop_drop, List.take_append_drop, List.take_append_drop]
  · rintro ⟨hfits, rest, rfl⟩
    rw [decode?_encode_append e.expiry hfits.length rest, signed_emod hfits.least hfits.greatest]

/-- An expiry fits 64 bits, whatever the lifetime is. -/
theorem expiryOf_fits (now : Moment) (lifetime : Lifetime) :
    -latest ≤ expiryOf now lifetime + 1 ∧ expiryOf now lifetime ≤ latest := by
  rw [expiryOf, show latest = 0x7FFFFFFFFFFFFFFF from rfl]
  generalize now / Lifetime.second = n
  omega

/-- An expiry has not come after fewer whole seconds than the lifetime has. -/
theorem lt_expiryOf {now moment : Nat} {lifetime : Lifetime}
    (h : moment / Lifetime.second < now / Lifetime.second + lifetime.seconds)
    (hclock : (moment / Lifetime.second : Nat) < latest) :
    (moment / Lifetime.second : Nat) < expiryOf now lifetime := by
  rw [expiryOf, show latest = 0x7FFFFFFFFFFFFFFF from rfl] at *
  generalize moment / Lifetime.second = m at *
  generalize now / Lifetime.second = n at *
  omega

end Envelope

namespace Lifetime

/-- Fewer whole seconds than a lifetime has do not use it up. -/
theorem lt_add_nanoseconds {now moment : Nat} {lifetime : Lifetime}
    (h : moment / second < now / second + lifetime.seconds) : moment < now + lifetime.nanoseconds := by
  rw [nanoseconds, second] at *
  omega

end Lifetime

namespace MemoryCache

theorem Entry.expired_of_le {e : Entry} {now later : Moment} (hle : now ≤ later) (h : e.expired now = true) :
    e.expired later = true := by
  rw [Entry.expired] at h ⊢
  split at h
  · exact decide_eq_true (Nat.le_trans (of_decide_eq_true h) hle)
  · cases h

/-- What is answered depends on what stands under the key. -/
theorem get_congr {c d : MemoryCache} {key : String} (h : c.entries.get? key = d.entries.get? key) (now : Moment) :
    (c.get now key).1 = (d.get now key).1 := by
  rw [get, get, h]
  cases d.entries.get? key with
  | none => rfl
  | some e =>
    dsimp only
    split <;> rfl

theorem get_get (c : MemoryCache) {now later : Moment} (hle : now ≤ later) (key other : String) :
    ((c.get now key).2.get later other).1 = (c.get later other).1 := by
  rw [get.eq_def c now key]
  split
  · next e he =>
    split
    · next hexpired =>
      -- an expired entry has been taken away, which is no answer later either
      by_cases hkey : other = key
      · rw [get, get]
        simp [hkey, he, Entry.expired_of_le hle hexpired]
      · exact get_congr (SortedMap.get?_erase_of_ne hkey) later
    · rfl
  · rfl

/-- Whether bytes stand under a key and have not expired. -/
def Yields (c : MemoryCache) (now : Moment) (key : String) (payload : Bytes) : Prop :=
  ∃ expiry, c.entries.get? key = some ⟨expiry, payload⟩ ∧ ∀ moment, expiry = some moment → now < moment

theorem get_eq_some_iff {c : MemoryCache} {now : Moment} {key : String} {payload : Bytes} :
    (c.get now key).1 = some payload ↔ c.Yields now key payload := by
  rw [get, Yields]
  cases c.entries.get? key with
  | none => simp
  | some e =>
    obtain ⟨expiry, content⟩ := e
    dsimp only
    rw [Entry.expired]
    cases expiry with
    | none => simp
    | some moment =>
      dsimp only
      split
      · next hexpired => simpa using fun _ => of_decide_eq_true hexpired
      · next hlive => simpa using fun _ => Nat.not_le.1 fun hle => hlive (decide_eq_true hle)

theorem yields_set (c : MemoryCache) {now moment : Moment} (key : String) (payload : Bytes) {lifetime : Lifetime}
    (h : moment < now + lifetime.nanoseconds) : (c.set now key payload lifetime).Yields moment key payload := by
  refine ⟨expiry? now lifetime, by simp [set, SortedMap.insert], fun last hlast => ?_⟩
  rw [expiry?, Option.ite_none_right_eq_some] at hlast
  obtain ⟨-, hlast⟩ := hlast
  cases hlast
  exact h

end MemoryCache

namespace DurableCache

theorem get_congr {c d : DurableCache} {key : String} (h : c.entries.get? key = d.entries.get? key) (now : Moment) :
    (c.get now key).1 = (d.get now key).1 := by
  rw [get, get, h]
  cases d.entries.get? key with
  | none => rfl
  | some raw =>
    dsimp only
    split
    · rfl
    · split <;> rfl

theorem get_get (c : DurableCache) {now later : Moment} (hle : now ≤ later) (key other : String) :
    ((c.get now key).2.get later other).1 = (c.get later other).1 := by
  rw [get.eq_def c now key]
  split
  · rfl
  · next raw hraw =>
    split
    · rfl
    · next e he =>
      split
      · next hexpired =>
        have hlater : e.expiry ≤ (later / Lifetime.second : Nat) :=
          Int.le_trans hexpired (Int.ofNat_le.2 (Nat.div_le_div_right hle))
        by_cases hkey : other = key
        · rw [get, get]
          simp only [hkey, SortedMap.get?_erase_self, hraw, he, if_pos hlater]
        · exact get_congr (SortedMap.get?_erase_of_ne hkey) later
      · rfl

/-- Whether bytes stand in an envelope under a key, with anything behind it, and have not expired. -/
def Yields (c : DurableCache) (now : Moment) (key : String) (payload : Bytes) : Prop :=
  ∃ expiry rest, c.entries.get? key = some (Envelope.encode ⟨expiry, payload⟩ ++ rest) ∧
    Envelope.Fits ⟨expiry, payload⟩ ∧ (now / Lifetime.second : Nat) < expiry

theorem get_eq_ok_some_iff {c : DurableCache} {now : Moment} {key : String} {payload : Bytes} :
    (c.get now key).1 = .ok (some payload) ↔ c.Yields now key payload := by
  rw [get, Yields]
  constructor
  · intro h
    split at h
    · cases h
    · next raw hraw =>
      split at h
      · cases h
      · next e he =>
        obtain ⟨hfits, rest, rfl⟩ := Envelope.decode?_eq_some_iff.1 he
        split at h
        · cases h
        · next hlive =>
          cases h
          exact ⟨e.expiry, rest, hraw, hfits, Int.not_le.1 hlive⟩
  · rintro ⟨expiry, rest, hraw, hfits, hlive⟩
    rw [hraw]
    dsimp only
    rw [Envelope.decode?_eq_some_iff.2 ⟨hfits, rest, rfl⟩]
    exact congrArg Prod.fst (if_neg (Int.not_le.2 hlive))

theorem yields_set (c : DurableCache) {now moment : Moment} (key : String) {payload : Bytes} {lifetime : Lifetime}
    (hlength : payload.length < 1 <<< 64) (h : moment / Lifetime.second < now / Lifetime.second + lifetime.seconds)
    (hclock : (moment / Lifetime.second : Nat) < Envelope.latest) :
    (c.set now key payload lifetime).Yields moment key payload := by
  obtain ⟨hleast, hgreatest⟩ := Envelope.expiryOf_fits now lifetime
  exact ⟨Envelope.expiryOf now lifetime, [], by simp [set, SortedMap.insert], ⟨hleast, hgreatest, hlength⟩,
    Envelope.lt_expiryOf h hclock⟩

end DurableCache

namespace Cache

/-- Whether a cache has bytes under a key that have not expired. -/
def Yields (c : Cache) (now : Moment) (key : String) (payload : Bytes) : Prop :=
  match c with
  | .memory m => m.Yields now key payload
  | .durable d => d.Yields now key payload

/-- What has not expired later has not expired before. -/
theorem Yields.of_le {c : Cache} {now later : Moment} (hle : now ≤ later) {key : String} {payload : Bytes}
    (h : c.Yields later key payload) : c.Yields now key payload := by
  cases c with
  | memory m =>
    obtain ⟨expiry, hentry, hlive⟩ := h
    exact ⟨expiry, hentry, fun moment hmoment => Nat.lt_of_le_of_lt hle (hlive moment hmoment)⟩
  | durable d =>
    obtain ⟨expiry, rest, hraw, hfits, hlive⟩ := h
    exact ⟨expiry, rest, hraw, hfits, Int.lt_of_le_of_lt (Int.ofNat_le.2 (Nat.div_le_div_right hle)) hlive⟩

/-- **A cache that is in order answers with the bytes that have not expired,** and with no others. -/
theorem get_eq_ok_some_iff {c : Cache} {o : Outage} {now : Moment} {key : String} {payload : Bytes} :
    (c.get o now key).1 = .ok (some payload) ↔ o.get = false ∧ c.Yields now key payload := by
  unfold Cache.get
  cases o.get with
  | true => simp
  | false =>
    cases c with
    | memory m => simp [Yields, ← MemoryCache.get_eq_some_iff]
    | durable d => simp [Yields, ← DurableCache.get_eq_ok_some_iff, mapError_eq_ok]

/-- **Reading a cache makes no difference to what it answers with from then on.** -/
theorem get_get (c : Cache) (o : Outage) {now later : Moment} (hle : now ≤ later) (key : String) (o' : Outage)
    (other : String) : ((c.get o now key).2.get o' later other).1 = (c.get o' later other).1 := by
  unfold Cache.get
  cases o.get with
  | true => rfl
  | false =>
    cases o'.get with
    | true => rfl
    | false =>
      cases c with
      | memory m => exact congrArg Except.ok (MemoryCache.get_get m hle key other)
      | durable d => exact congrArg (Except.mapError _) (DurableCache.get_get d hle key other)

/-- What is stored can be read until its lifetime is over, as far as the clock goes. -/
theorem yields_set (c : Cache) {o : Outage} (ho : o.set = false) {now moment : Moment} (key : String) {payload : Bytes}
    {lifetime : Lifetime} (hlength : payload.length < 1 <<< 64)
    (h : moment / Lifetime.second < now / Lifetime.second + lifetime.seconds)
    (hclock : (moment / Lifetime.second : Nat) < Envelope.latest) :
    (c.set o now key payload lifetime).2.Yields moment key payload := by
  unfold Cache.set
  rw [if_neg (by simp [ho])]
  cases c with
  | memory m => exact MemoryCache.yields_set m key payload (Lifetime.lt_add_nanoseconds h)
  | durable d => exact DurableCache.yields_set d key hlength h hclock

end Cache

end Suggest
