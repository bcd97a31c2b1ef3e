/-
# Caches of both kinds answer alike

Whatever calls are made, a cache remembers what was stored under each key and not taken away since, as long as it is good
(`Cache.stored`).  Each call keeps that up (`Cache.Remembers.step`), in memory and durably, so that is what a cache answers with
(`Cache.Remembers.answers_eq`).

How long it is good depends on how a cache tells the time.  In memory that is in nanoseconds, durably in whole seconds, so what
is stored durably in the middle of a second may expire that much earlier:

| lifetime | in memory | durably |
| --- | --- | --- |
| none | expires at once | expires in the same second |
| an hour | expires after an hour | expires in the second that comes 3600 seconds later |
| as long as any | never expires | expires in the last second that an envelope can name |

Within an hour that makes no difference to anything that is good for no time, or for a second more than an hour.  So both kinds
answer alike, unless something is looked up 3600 seconds after it was stored for less (`Cache.answers_alike`).
-/

import Suggest.Proofs.Cache.Live

namespace Suggest

namespace Envelope

/-- The expiry is what the second and the lifetime add up to, or the greatest number. -/
theorem expiryOf_eq_min (now : Moment) (lifetime : Lifetime) :
    expiryOf now lifetime = min ((now / Lifetime.second + lifetime.seconds : Nat) : Int) latest := by
  rw [expiryOf, show latest = 0x7FFFFFFFFFFFFFFF from rfl]
  generalize now / Lifetime.second = n
  omega

/-- An expiry has come if as many seconds have begun as the lifetime has. -/
theorem expiryOf_le_iff {since now : Nat} {lifetime : Lifetime} (hclock : (now / Lifetime.second : Nat) < latest) :
    expiryOf since lifetime ≤ (now / Lifetime.second : Nat) ↔
      since / Lifetime.second + lifetime.seconds ≤ now / Lifetime.second := by
  rw [expiryOf_eq_min]
  generalize now / Lifetime.second = n at *
  generalize since / Lifetime.second = m at *
  omega

/-- An envelope of something that is stored now is read as it was written. -/
theorem decode?_encode_expiryOf (now : Moment) (lifetime : Lifetime) {payload : Bytes} (hlength : payload.length < 1 <<< 64) :
    decode? (encode ⟨expiryOf now lifetime, payload⟩) = some ⟨expiryOf now lifetime, payload⟩ := by
  obtain ⟨hleast, hgreatest⟩ := expiryOf_fits now lifetime
  exact decode?_eq_some_iff.2 ⟨⟨hleast, hgreatest, hlength⟩, [], (List.append_nil _).symm⟩

end Envelope

namespace Lifetime

/-- Within an hour what is good for an hour is good, and what is good for no time is not. -/
theorem lt_add_nanoseconds_iff {start since now : Nat} {lifetime : Lifetime}
    (hlasting : lifetime.nanoseconds = 0 ∨ 3600 ≤ lifetime.seconds) (hstart : start ≤ since) (hle : since ≤ now)
    (hhour : now < start + 3600 * second) : now < since + lifetime.nanoseconds ↔ lifetime.nanoseconds ≠ 0 := by
  rw [nanoseconds, second] at *
  omega

/-- If whole seconds are counted, what is good for an hour, and less than a second more, may not be good any more. -/
theorem lt_add_seconds_iff {start since now : Nat} {lifetime : Lifetime}
    (hlasting : lifetime.nanoseconds = 0 ∨ 3600 ≤ lifetime.seconds) (hstart : start ≤ since) (hle : since ≤ now)
    (hhour : now < start + 3600 * second) :
    now / second < since / second + lifetime.seconds ↔
      lifetime.nanoseconds ≠ 0 ∧ ¬(lifetime.seconds = 3600 ∧ since / second + 3600 ≤ now / second) := by
  rw [nanoseconds, second] at *
  omega

end Lifetime

namespace MemoryCache

/-- What is stored is there until its lifetime is over. -/
theorem get_set_self (c : MemoryCache) {now : Moment} (hclock : now ≤ latest) (since : Moment) (key : String) (payload : Bytes)
    (lifetime : Lifetime) :
    ((c.set since key payload lifetime).get now key).1 =
      if now < since + lifetime.nanoseconds then some payload else none := by
  have hexpired : (Entry.mk (expiry? since lifetime) payload).expired now = decide (since + lifetime.nanoseconds ≤ now) := by
    rw [expiry?]
    split
    · rfl
    · next hnever =>
      -- what expires later than the clock can show has not expired
      exact (decide_eq_false fun hle => hnever (Nat.le_trans hle hclock)).symm
  rw [get, set, SortedMap.insert, SortedMap.get?_alter_self]
  simp only [hexpired, decide_eq_true_eq, ← Nat.not_lt, ite_not]
  split <;> rfl

end MemoryCache

namespace DurableCache

/-- What is stored is there until as many seconds have begun as its lifetime has. -/
theorem get_set_self (c : DurableCache) {now : Moment} (hclock : (now / Lifetime.second : Nat) < Envelope.latest)
    (since : Moment) (key : String) {payload : Bytes} (hlength : payload.length < 1 <<< 64) (lifetime : Lifetime) :
    ((c.set since key payload lifetime).get now key).1 =
      .ok (if now / Lifetime.second < since / Lifetime.second + lifetime.seconds then some payload else none) := by
  rw [get, set, SortedMap.insert, SortedMap.get?_alter_self]
  dsimp only
  rw [Envelope.decode?_encode_expiryOf since lifetime hlength]
  simp only [Envelope.expiryOf_le_iff hclock, ← Nat.not_lt, ite_not]
  split <;> rfl

end DurableCache

namespace Cache

/-! ### Other keys, and keys that are taken away -/

theorem get_set_of_ne (c : Cache) (now later : Moment) {key other : String} (h : other ≠ key) (payload : Bytes)
    (lifetime : Lifetime) : ((c.set {} now key payload lifetime).2.get {} later other).1 = (c.get {} later other).1 := by
  cases c with
  | memory m => exact congrArg Except.ok (MemoryCache.get_congr (SortedMap.get?_alter_of_ne m.entries h _) later)
  | durable d =>
    exact congrArg (Except.mapError _) (DurableCache.get_congr (SortedMap.get?_alter_of_ne d.entries h _) later)

theorem get_delete_of_ne (c : Cache) (later : Moment) {key other : String} (h : other ≠ key) :
    ((c.delete {} key).2.get {} later other).1 = (c.get {} later other).1 := by
  cases c with
  | memory m => exact congrArg Except.ok (MemoryCache.get_congr (SortedMap.get?_erase_of_ne h) later)
  | durable d => exact congrArg (Except.mapError _) (DurableCache.get_congr (SortedMap.get?_erase_of_ne h) later)

theorem get_delete_self (c : Cache) (later : Moment) (key : String) :
    ((c.delete {} key).2.get {} later key).1 = .ok none := by
  cases c with
  | memory m =>
    have hnone : (m.delete key).entries.get? key = (∅ : SortedMap String MemoryCache.Entry).get? key :=
      SortedMap.get?_erase_self m.entries key
    exact congrArg Except.ok (MemoryCache.get_congr (d := ⟨∅⟩) hnone later)
  | durable d =>
    have hnone : (d.delete key).entries.get? key = (∅ : SortedMap String Bytes).get? key :=
      SortedMap.get?_erase_self d.entries key
    exact congrArg (Except.mapError _) (DurableCache.get_congr (d := ⟨∅⟩) hnone later)

/-! ### What calls come to -/

/-- A call to a cache. -/
inductive Call where
  | set (key : String) (payload : Bytes) (lifetime : Lifetime)
  | get (key : String)
  | delete (key : String)
  | flush

/-- What a call comes to, which is nothing but for a look-up, and the cache afterwards.  No call is out of order. -/
def Call.run (c : Cache) (now : Moment) : Call → Except Failure (Option Bytes) × Cache
  | .set key payload lifetime => ((c.set {} now key payload lifetime).1.map fun _ => none, (c.set {} now key payload lifetime).2)
  | .get key => c.get {} now key
  | .delete key => ((c.delete {} key).1.map fun _ => none, (c.delete {} key).2)
  | .flush => ((c.flush {}).map fun _ => none, c)

/-- What calls at some moments come to, one after the other. -/
def answers (c : Cache) : List (Moment × Call) → List (Except Failure (Option Bytes))
  | [] => []
  | (now, call) :: rest => (call.run c now).1 :: answers (call.run c now).2 rest

/-- The bytes that were stored under a key and not taken away since, after calls of which the latest comes first, if what was
stored at that moment for that lifetime is kept. -/
def stored (kept : Moment → Lifetime → Bool) (key : String) : List (Moment × Call) → Option Bytes
  | [] => none
  | (since, .set other payload lifetime) :: before =>
    if other = key then if kept since lifetime then some payload else none else stored kept key before
  | (_, .delete other) :: before => if other = key then none else stored kept key before
  | _ :: before => stored kept key before

/-- What a call comes to after others. -/
def Call.found (kept : Moment → Lifetime → Bool) (before : List (Moment × Call)) : Call → Option Bytes
  | .get key => stored kept key before
  | _ => none

/-- What calls come to after others, one after the other, if it depends on the moment of a look-up what is kept. -/
def founds (kept : Moment → Moment → Lifetime → Bool) (before : List (Moment × Call)) :
    List (Moment × Call) → List (Option Bytes)
  | [] => []
  | (now, call) :: rest => call.found (kept now) before :: founds kept ((now, call) :: before) rest

/-- Whether what a call stores has a length of 64 bits. -/
def Call.Fits : Call → Prop
  | .set _ payload _ => payload.length < 1 <<< 64
  | _ => True

/-- Whether what was stored at a moment for a lifetime is good now, as a cache tells the time. -/
def good (c : Cache) (now since : Moment) (lifetime : Lifetime) : Bool :=
  match c with
  | .memory _ => now < since + lifetime.nanoseconds
  | .durable _ => now / Lifetime.second < since / Lifetime.second + lifetime.seconds

/-- Whether the clock of a cache goes as far as a moment. -/
def Shows (c : Cache) (now : Moment) : Prop :=
  match c with
  | .memory _ => now ≤ MemoryCache.latest
  | .durable _ => (now / Lifetime.second : Nat) < Envelope.latest

instance (c : Cache) (now : Moment) : Decidable (c.Shows now) :=
  match c with
  | .memory _ => inferInstanceAs (Decidable (_ ≤ _))
  | .durable _ => inferInstanceAs (Decidable (_ < _))

variable {c : Cache} {start now : Moment} {before : List (Moment × Call)}

theorem good_run (c : Cache) (now : Moment) (call : Call) : (call.run c now).2.good = c.good := by
  cases c <;> cases call <;> rfl

theorem shows_run (c : Cache) (now : Moment) (call : Call) : (call.run c now).2.Shows = c.Shows := by
  cases c <;> cases call <;> rfl

theorem get_set_self (hclock : c.Shows now) (since : Moment) (key : String) {payload : Bytes}
    (hlength : payload.length < 1 <<< 64) (lifetime : Lifetime) :
    ((c.set {} since key payload lifetime).2.get {} now key).1 =
      .ok (if c.good now since lifetime then some payload else none) := by
  cases c with
  | memory m =>
    simp only [good, decide_eq_true_eq]
    exact congrArg Except.ok (MemoryCache.get_set_self m hclock since key payload lifetime)
  | durable d =>
    simp only [good, decide_eq_true_eq]
    exact congrArg (Except.mapError _) (DurableCache.get_set_self d hclock since key hlength lifetime)

/-- Whether a cache answers with what was stored by calls, from a moment on. -/
def Remembers (c : Cache) (now : Moment) (before : List (Moment × Call)) : Prop :=
  ∀ later key, now ≤ later → c.Shows later → (c.get {} later key).1 = .ok (stored (c.good later) key before)

/-- **Each call comes to what it should, and the cache remembers it.** -/
theorem Remembers.step {earlier : Moment} (h : c.Remembers earlier before) (hle : earlier ≤ now) (hclock : c.Shows now)
    {call : Call} (hfits : call.Fits) :
    (call.run c now).1 = .ok (call.found (c.good now) before) ∧
      (call.run c now).2.Remembers now ((now, call) :: before) := by
  -- what stood under a key before is answered later as well
  have hearlier : ∀ later key, now ≤ later → c.Shows later →
      (c.get {} later key).1 = .ok (stored (c.good later) key before) :=
    fun later key hlater => h later key (Nat.le_trans hle hlater)
  rw [Remembers, shows_run, good_run]
  cases call with
  | set key payload lifetime =>
    refine ⟨by cases c <;> rfl, fun later other hlater hshows => ?_⟩
    rw [stored]
    by_cases hkey : key = other
    · subst hkey
      rw [if_pos rfl]
      exact get_set_self hshows now key hfits lifetime
    · rw [if_neg hkey]
      exact (get_set_of_ne c now later (Ne.symm hkey) payload lifetime).trans (hearlier later other hlater hshows)
  | get key =>
    refine ⟨hearlier now key (Nat.le_refl now) hclock, fun later other hlater hshows => ?_⟩
    exact (get_get c {} hlater key {} other).trans (hearlier later other hlater hshows)
  | delete key =>
    refine ⟨by cases c <;> rfl, fun later other hlater hshows => ?_⟩
    rw [stored]
    by_cases hkey : key = other
    · subst hkey
      rw [if_pos rfl]
      exact get_delete_self c later key
    · rw [if_neg hkey]
      exact (get_delete_of_ne c later (Ne.symm hkey)).trans (hearlier later other hlater hshows)
  | flush => exact ⟨rfl, hearlier⟩

/-- **Calls come to what they should,** one after the other, whatever kind of cache it is. -/
theorem Remembers.answers_eq {earlier : Moment} (h : c.Remembers earlier before) {calls : List (Moment × Call)}
    (hordered : (earlier :: calls.map Prod.fst).Pairwise (· ≤ ·)) (hclock : ∀ a ∈ calls, c.Shows a.1)
    (hfits : ∀ a ∈ calls, a.2.Fits) : answers c calls = (founds c.good before calls).map .ok := by
  induction calls generalizing c before earlier with
  | nil => rfl
  | cons a rest ih =>
    obtain ⟨now, call⟩ := a
    have hle : earlier ≤ now := List.rel_of_pairwise_cons hordered List.mem_cons_self
    obtain ⟨hreply, hnext⟩ := h.step hle (hclock _ List.mem_cons_self) (hfits _ List.mem_cons_self)
    have hrest : ∀ a ∈ rest, (call.run c now).2.Shows a.1 := by
      intro a ha
      rw [shows_run]
      exact hclock a (List.mem_cons_of_mem _ ha)
    rw [answers, hreply, ih hnext (List.Pairwise.of_cons hordered) hrest fun a ha => hfits a (List.mem_cons_of_mem _ ha),
      good_run]
    rfl

/-! ### What is kept does not depend on the cache -/

theorem stored_congr {kept kept' : Moment → Lifetime → Bool}
    (h : ∀ b ∈ before, ∀ key payload lifetime, b.2 = .set key payload lifetime → kept b.1 lifetime = kept' b.1 lifetime)
    (key : String) : stored kept key before = stored kept' key before := by
  induction before with
  | nil => rfl
  | cons b before ih =>
    obtain ⟨since, call⟩ := b
    have hbefore := ih fun b hb => h b (List.mem_cons_of_mem _ hb)
    cases call with
    | set other payload lifetime =>
      have hkept : kept since lifetime = kept' since lifetime := h _ List.mem_cons_self other payload lifetime rfl
      rw [stored, stored, hkept, hbefore]
    | delete => rw [stored, stored, hbefore]
    | get | flush => exact hbefore

/-- What calls come to depends on what is kept of what was stored before. -/
theorem founds_congr {kept kept' : Moment → Moment → Lifetime → Bool} {earlier : Moment} {calls : List (Moment × Call)}
    (hordered : (earlier :: calls.map Prod.fst).Pairwise (· ≤ ·)) (hbefore : ∀ b ∈ before, b.1 ≤ earlier)
    (h : ∀ a ∈ calls, ∀ b ∈ before ++ calls, b.1 ≤ a.1 → ∀ key payload lifetime, b.2 = .set key payload lifetime →
      kept a.1 b.1 lifetime = kept' a.1 b.1 lifetime) : founds kept before calls = founds kept' before calls := by
  induction calls generalizing before earlier with
  | nil => rfl
  | cons a rest ih =>
    obtain ⟨now, call⟩ := a
    have hle : earlier ≤ now := List.rel_of_pairwise_cons hordered List.mem_cons_self
    have hstored : ∀ key, stored (kept now) key before = stored (kept' now) key before := stored_congr fun b hb =>
      h (now, call) List.mem_cons_self b (List.mem_append_left _ hb) (Nat.le_trans (hbefore b hb) hle)
    have hfound : call.found (kept now) before = call.found (kept' now) before := by
      cases call with
      | get key => exact hstored key
      | set | delete | flush => rfl
    rw [founds, founds, hfound, ih (List.Pairwise.of_cons hordered)]
    · intro b hb
      rcases List.mem_cons.1 hb with rfl | hb
      · exact Nat.le_refl _
      · exact Nat.le_trans (hbefore b hb) hle
    · intro a ha b hb
      refine h a (List.mem_cons_of_mem _ ha) b ?_
      simp only [List.cons_append, List.mem_cons, List.mem_append] at hb ⊢
      exact or_left_comm.1 hb

theorem stored_of_map_snd {kept : Lifetime → Bool} {before' : List (Moment × Call)}
    (h : before.map Prod.snd = before'.map Prod.snd) (key : String) :
    stored (fun _ => kept) key before = stored (fun _ => kept) key before' := by
  induction before generalizing before' with
  | nil => rw [List.map_eq_nil_iff.1 h.symm]
  | cons b before ih =>
    obtain ⟨⟨moment, call⟩, rest, rfl, hcall, hrest⟩ := List.map_eq_cons_iff.1 h.symm
    obtain ⟨since, _⟩ := b
    dsimp only at hcall
    subst hcall
    have hbefore := ih hrest.symm
    cases call with
    | set => rw [stored, stored, hbefore]
    | delete => rw [stored, stored, hbefore]
    | get | flush => exact hbefore

/-- If it does not depend on moments what is kept, it does not matter when calls are made. -/
theorem founds_of_map_snd {kept : Lifetime → Bool} {before' calls calls' : List (Moment × Call)}
    (hbefore : before.map Prod.snd = before'.map Prod.snd) (h : calls.map Prod.snd = calls'.map Prod.snd) :
    founds (fun _ _ => kept) before calls = founds (fun _ _ => kept) before' calls' := by
  induction calls generalizing calls' before before' with
  | nil => rw [List.map_eq_nil_iff.1 h.symm]; rfl
  | cons a rest ih =>
    obtain ⟨⟨moment, call⟩, rest', rfl, hcall, hrest⟩ := List.map_eq_cons_iff.1 h.symm
    obtain ⟨now, _⟩ := a
    dsimp only at hcall
    subst hcall
    have hfound : call.found (fun _ => kept) before = call.found (fun _ => kept) before' := by
      cases call with
      | get key => exact stored_of_map_snd hbefore key
      | set | delete | flush => rfl
    have hnext : ((now, call) :: before).map Prod.snd = ((moment, call) :: before').map Prod.snd :=
      congrArg (List.cons call) hbefore
    rw [founds, founds, hfound, ih hnext hrest.symm]

/-! ### Calls within an hour -/

/-- Whether what a call stores has a length of 64 bits, and is good for no time or for an hour at least. -/
def Call.Lasting : Call → Prop
  | .set _ payload lifetime =>
    payload.length < 1 <<< 64 ∧ (lifetime.nanoseconds = 0 ∨ 3600 ≤ lifetime.seconds)
  | _ => True

theorem Call.Lasting.fits {call : Call} (h : call.Lasting) : call.Fits := by
  cases call with
  | set => exact h.1
  | get | delete | flush => trivial

/-- Whether calls are made in the order of time, from a moment on and for less than an hour, as far as the clock of a cache
goes. -/
structure WithinHour (c : Cache) (start : Moment) (calls : List (Moment × Call)) : Prop where
  ordered : (start :: calls.map Prod.fst).Pairwise (· ≤ ·)
  sameHour : ∀ a ∈ calls, a.1 < start + 3600 * Lifetime.second
  shown : ∀ a ∈ calls, c.Shows a.1

/-- Within an hour everything is kept but what is good for no time. -/
def keeps (lifetime : Lifetime) : Bool := lifetime.nanoseconds ≠ 0

/-- A cache that counts seconds does not keep what is good for an hour, and less than a second more, when 3600 of them have
begun. -/
def keepsBySecond (now since : Moment) (lifetime : Lifetime) : Bool :=
  keeps lifetime && !(lifetime.seconds = 3600 && since / Lifetime.second + 3600 ≤ now / Lifetime.second)

/-- Whether a call stores something for an hour and less than a second more. -/
def Call.isHourly : Call → Bool
  | .set _ _ lifetime => lifetime.seconds = 3600
  | _ => false

theorem good_memory {m : MemoryCache} {since : Moment} {lifetime : Lifetime}
    (hlasting : lifetime.nanoseconds = 0 ∨ 3600 ≤ lifetime.seconds) (hstart : start ≤ since) (hle : since ≤ now)
    (hhour : now < start + 3600 * Lifetime.second) : (memory m).good now since lifetime = keeps lifetime := by
  rw [good, keeps, Bool.eq_iff_iff, decide_eq_true_iff, decide_eq_true_iff]
  exact Lifetime.lt_add_nanoseconds_iff hlasting hstart hle hhour

theorem good_durable {d : DurableCache} {since : Moment} {lifetime : Lifetime}
    (hlasting : lifetime.nanoseconds = 0 ∨ 3600 ≤ lifetime.seconds) (hstart : start ≤ since) (hle : since ≤ now)
    (hhour : now < start + 3600 * Lifetime.second) :
    (durable d).good now since lifetime = keepsBySecond now since lifetime := by
  rw [good, keepsBySecond, keeps, Bool.eq_iff_iff, Bool.and_eq_true, Bool.not_eq_true', ← Bool.not_eq_true, Bool.and_eq_true,
    decide_eq_true_iff, decide_eq_true_iff, decide_eq_true_iff, decide_eq_true_iff]
  exact Lifetime.lt_add_seconds_iff hlasting hstart hle hhour

/-- Calls to an empty cache within an hour come to what is kept. -/
theorem WithinHour.answers_eq {calls : List (Moment × Call)} (h : c.WithinHour start calls)
    (hlasting : ∀ a ∈ calls, a.2.Lasting) (hempty : ∀ now key, (c.get {} now key).1 = .ok none)
    {kept : Moment → Moment → Lifetime → Bool}
    (hkept : ∀ {now since lifetime}, lifetime.nanoseconds = 0 ∨ 3600 ≤ lifetime.seconds → start ≤ since → since ≤ now →
      now < start + 3600 * Lifetime.second → c.good now since lifetime = kept now since lifetime) :
    answers c calls = (founds kept [] calls).map .ok := by
  have hremembers : c.Remembers start [] := fun later key _ _ => hempty later key
  rw [hremembers.answers_eq h.ordered h.shown fun a ha => (hlasting a ha).fits, founds_congr h.ordered (by simp)]
  intro a ha b hb hle key payload lifetime hset
  rw [List.nil_append] at hb
  have hstart : start ≤ b.1 := List.rel_of_pairwise_cons h.ordered (List.mem_map_of_mem hb)
  have hgood := hlasting b hb
  rw [hset] at hgood
  exact hkept hgood.2 hstart hle (h.sameHour a ha)

/-- **Caches of both kinds answer alike, up to a second.**  From empty caches and within an hour, each look-up in memory finds the
bytes that were stored last under its key and not taken away since, unless they were good for no time, and then it finds nothing.
Durably it finds the same, except that what is good for an hour, and less than a second more, is not found any more when 3600
seconds have begun since.  So if no call comes that late, both kinds answer alike.

No expiry is out of bounds: in memory it is the sum or there is none, durably it is the sum or the greatest number, and it is read
from the envelope as it was written there. -/
theorem answers_alike {calls : List Call} (hlasting : ∀ call ∈ calls, call.Lasting)
    {monotonic unix : List (Moment × Call)} (hmonotonic : monotonic.map Prod.snd = calls)
    (hunix : unix.map Prod.snd = calls) {start start' : Moment} (hmemory : (memory {}).WithinHour start monotonic)
    (hdurable : (durable {}).WithinHour start' unix) :
    answers (memory {}) monotonic = (founds (fun _ _ => keeps) [] monotonic).map .ok ∧
    answers (durable {}) unix = (founds keepsBySecond [] unix).map .ok ∧
    ((∀ a ∈ unix, ∀ b ∈ unix, b.2.isHourly = true → a.1 / Lifetime.second < b.1 / Lifetime.second + 3600) →
      answers (durable {}) unix = answers (memory {}) monotonic) ∧
    ∀ key payload lifetime, .set key payload lifetime ∈ calls → ∀ now,
      (∀ expiry, MemoryCache.expiry? now lifetime = some expiry →
        expiry = now + lifetime.nanoseconds ∧ expiry ≤ MemoryCache.latest) ∧
      Envelope.expiryOf now lifetime = min ((now / Lifetime.second + lifetime.seconds : Nat) : Int) Envelope.latest ∧
      Envelope.decode? (Envelope.encode ⟨Envelope.expiryOf now lifetime, payload⟩) =
        some ⟨Envelope.expiryOf now lifetime, payload⟩ := by
  have hlasts : ∀ {timed : List (Moment × Call)}, timed.map Prod.snd = calls → ∀ a ∈ timed, a.2.Lasting := by
    rintro timed rfl a ha
    exact hlasting _ (List.mem_map_of_mem ha)
  have hfound : answers (memory {}) monotonic = (founds (fun _ _ => keeps) [] monotonic).map .ok :=
    hmemory.answers_eq (hlasts hmonotonic) (fun _ _ => rfl) good_memory
  have hfound' : answers (durable {}) unix = (founds keepsBySecond [] unix).map .ok :=
    hdurable.answers_eq (hlasts hunix) (fun _ _ => rfl) good_durable
  refine ⟨hfound, hfound', fun hearly => ?_, fun key payload lifetime hset now => ⟨fun expiry hexpiry => ?_, ?_, ?_⟩⟩
  · rw [hfound, hfound', ← founds_of_map_snd rfl (hunix.trans hmonotonic.symm)]
    refine congrArg (List.map Except.ok) (founds_congr hdurable.ordered (by simp) ?_)
    intro a ha b hb _ key payload lifetime hset
    rw [List.nil_append] at hb
    have hbefore := hearly a ha b hb
    rw [hset, Call.isHourly, decide_eq_true_iff] at hbefore
    rw [keepsBySecond]
    by_cases hhour : lifetime.seconds = 3600
    · simp [Nat.not_le.2 (hbefore hhour)]
    · simp [hhour]
  · rw [MemoryCache.expiry?, Option.ite_none_right_eq_some] at hexpiry
    obtain ⟨hle, hexpiry⟩ := hexpiry
    cases hexpiry
    exact ⟨rfl, hle⟩
  · exact Envelope.expiryOf_eq_min now lifetime
  · exact Envelope.decode?_encode_expiryOf now lifetime (hlasting _ hset).1

/-- Something is stored for as long as any, then for no time, then for an hour, and taken away, and something else is stored
under another key. -/
def storedTwice : List Call :=
  [.set "a" [1, 2] .longest, .get "a", .set "a" [3] ⟨0, 0⟩, .get "a", .set "b" [] ⟨3600, 0⟩, .set "a" [4] ⟨3600, 0⟩,
    .get "a", .delete "a", .flush, .get "a", .get "b"]

/-- Calls every five minutes from a moment on. -/
def everyFiveMinutes (start : Moment) (calls : List Call) : List (Moment × Call) :=
  calls.zipIdx.map fun (call, i) => (start + i * 300 * Lifetime.second, call)

/-- A clock that begins at nothing, and one that shows the middle of a second in this century. -/
theorem answers_alike_storedTwice :
    answers (durable {}) (everyFiveMinutes (1700000000 * Lifetime.second + 500000000) storedTwice) =
        answers (memory {}) (everyFiveMinutes 0 storedTwice) ∧
      answers (memory {}) (everyFiveMinutes 0 storedTwice) =
        [.ok none, .ok (some [1, 2]), .ok none, .ok none, .ok none, .ok none, .ok (some [4]), .ok none, .ok none, .ok none,
          .ok (some [])] := by
  have hlasting : ∀ call ∈ storedTwice, call.Lasting := by
    simp [storedTwice, Call.Lasting, Lifetime.longest, Lifetime.nanoseconds, Json.Reader.maxWord]
  have hmemory : (memory {}).WithinHour 0 (everyFiveMinutes 0 storedTwice) := ⟨by decide, by decide, by decide⟩
  have hdurable : (durable {}).WithinHour (1700000000 * Lifetime.second + 500000000)
      (everyFiveMinutes (1700000000 * Lifetime.second + 500000000) storedTwice) := ⟨by decide, by decide, by decide⟩
  have hfounds : founds (fun _ _ => keeps) [] (everyFiveMinutes 0 storedTwice) =
      [none, some [1, 2], none, none, none, none, some [4], none, none, none, some []] := by decide +kernel
  obtain ⟨hfound, -, hsame, -⟩ := answers_alike hlasting rfl rfl hmemory hdurable
  rw [hfounds] at hfound
  exact ⟨hsame (by decide +kernel), hfound⟩

/-- Something is stored for an hour, and looked up less than a second before that is over. -/
def storedForAnHour (start : Moment) : List (Moment × Call) :=
  [(start, .set "a" [1] ⟨3600, 0⟩), (start + 3599 * Lifetime.second + 200000000, .get "a")]

/-- It is there in memory, but not durably, if it was stored at the end of a second. -/
theorem answers_storedForAnHour :
    (∀ a ∈ storedForAnHour 900000000, a.2.Lasting) ∧
      (memory {}).WithinHour 900000000 (storedForAnHour 900000000) ∧
      (durable {}).WithinHour 900000000 (storedForAnHour 900000000) ∧
      answers (memory {}) (storedForAnHour 900000000) = [.ok none, .ok (some [1])] ∧
      answers (durable {}) (storedForAnHour 900000000) = [.ok none, .ok none] := by
  refine ⟨by simp [storedForAnHour, Call.Lasting], ⟨by decide, by decide, by decide⟩, ⟨by decide, by decide, by decide⟩, ?_, ?_⟩
  · decide +kernel
  · decide +kernel

end Cache
end Suggest
