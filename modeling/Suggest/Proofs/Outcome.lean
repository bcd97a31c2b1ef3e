/-
# Calls that may fail

A chain of calls succeeds exactly if each call does (`bind_eq_ok`), and fails as the first one that fails (`bind_eq_error`).
A call for each item of a list succeeds exactly if it does for each of them (`mapM_eq_ok_iff`).  Calls that take a state on, and
that may change places with each other, come to the same in any order (`foldlM_perm`).
-/

import Mathlib.Data.List.Forall2

namespace Suggest

variable {ε α β : Type}

theorem bind_eq_ok {x : Except ε α} {f : α → Except ε β} {b : β} :
    x >>= f = .ok b ↔ ∃ a, x = .ok a ∧ f a = .ok b := by
  cases x <;> simp [bind, Except.bind]

theorem bind_eq_error {x : Except ε α} {f : α → Except ε β} {e : ε} :
    x >>= f = .error e ↔ x = .error e ∨ ∃ a, x = .ok a ∧ f a = .error e := by
  cases x <;> simp [bind, Except.bind]

theorem pure_eq_ok {a b : α} : (pure a : Except ε α) = .ok b ↔ a = b := by simp [pure, Except.pure]

theorem map_eq_ok {x : Except ε α} {f : α → β} {b : β} : x.map f = .ok b ↔ ∃ a, x = .ok a ∧ f a = b := by
  cases x <;> simp [Except.map]

theorem mapError_eq_ok {δ : Type} {x : Except ε α} {f : ε → δ} {a : α} : x.mapError f = .ok a ↔ x = .ok a := by
  cases x <;> simp [Except.mapError]

theorem mapM_eq_ok_iff {f : α → Except ε β} {l : List α} {m : List β} :
    l.mapM f = .ok m ↔ List.Forall₂ (fun a b => f a = .ok b) l m := by
  induction l generalizing m with
  | nil => rw [List.mapM_nil, pure_eq_ok, List.forall₂_nil_left_iff, eq_comm]
  | cons a l ih =>
    simp only [List.mapM_cons, bind_eq_ok, pure_eq_ok, ih]
    constructor
    · rintro ⟨b, hb, bs, hbs, rfl⟩
      exact .cons hb hbs
    · rintro (_ | ⟨hb, hbs⟩)
      exact ⟨_, hb, _, hbs, rfl⟩

/-- A call for each item succeeds if every one does. -/
theorem mapM_ok {f : α → Except ε β} {g : α → β} {l : List α} (h : ∀ a ∈ l, f a = .ok (g a)) :
    l.mapM f = .ok (l.map g) := by
  rw [mapM_eq_ok_iff, List.forall₂_map_right_iff, List.forall₂_same]
  exact h

theorem mapM_congr {f g : α → Except ε β} {l : List α} (h : ∀ a ∈ l, f a = g a) : l.mapM f = l.mapM g := by
  induction l with
  | nil => rfl
  | cons a rest ih =>
    rw [List.mapM_cons, List.mapM_cons, h a List.mem_cons_self, ih fun a ha => h a (List.mem_cons_of_mem _ ha)]

theorem exists_left_of_forall₂ {R : α → β → Prop} {as : List α} {bs : List β} (h : List.Forall₂ R as bs) {b : β}
    (hb : b ∈ bs) : ∃ a ∈ as, R a b := by
  induction h with
  | nil => cases hb
  | cons hR _ ih =>
    rcases List.mem_cons.1 hb with rfl | hb
    · exact ⟨_, List.mem_cons_self, hR⟩
    · obtain ⟨a, ha, hR⟩ := ih hb
      exact ⟨a, List.mem_cons_of_mem _ ha, hR⟩

theorem exists_right_of_forall₂ {R : α → β → Prop} {as : List α} {bs : List β} (h : List.Forall₂ R as bs) {a : α}
    (ha : a ∈ as) : ∃ b ∈ bs, R a b :=
  exists_left_of_forall₂ h.flip ha

/-- Pairing two lists through a third one is pairing their items through one each. -/
theorem forall₂_exists_iff {γ : Type} {R : α → γ → Prop} {S : γ → β → Prop} {as : List α} {bs : List β} :
    (∃ cs, List.Forall₂ R as cs ∧ List.Forall₂ S cs bs) ↔ List.Forall₂ (fun a b => ∃ c, R a c ∧ S c b) as bs := by
  constructor
  · rintro ⟨cs, hR, hS⟩
    induction hR generalizing bs with
    | nil => cases hS; exact .nil
    | cons h _ ih => cases hS with | cons h' hS => exact .cons ⟨_, h, h'⟩ (ih hS)
  · intro h
    induction h with
    | nil => exact ⟨[], .nil, .nil⟩
    | cons h _ ih =>
      obtain ⟨c, hR, hS⟩ := h
      obtain ⟨cs, hRs, hSs⟩ := ih
      exact ⟨c :: cs, .cons hR hRs, .cons hS hSs⟩

/-- Lists of bindings that are paired name by name have the same names. -/
theorem names_eq_of_forall₂ {κ : Type} {R : κ × α → κ × β → Prop} {as : List (κ × α)} {bs : List (κ × β)}
    (h : List.Forall₂ R as bs) (hR : ∀ a b, R a b → a.1 = b.1) : as.map Prod.fst = bs.map Prod.fst := by
  induction h with
  | nil => rfl
  | cons h _ ih => rw [List.map_cons, List.map_cons, hR _ _ h, ih]

theorem eq_of_forall₂ {R : α → α → Prop} {as bs : List α} (h : List.Forall₂ R as bs) (hR : ∀ a ∈ as, ∀ b, R a b → a = b) :
    as = bs := by
  induction h with
  | nil => rfl
  | cons h _ ih => rw [hR _ List.mem_cons_self _ h, ih fun a ha => hR a (List.mem_cons_of_mem _ ha)]

/-- Of calls that succeed all together each one succeeds. -/
theorem exists_of_mapM_ok {f : α → Except ε β} {l : List α} {m : List β} (h : l.mapM f = .ok m) {a : α} (ha : a ∈ l) :
    ∃ b, f a = .ok b := by
  obtain ⟨b, -, hb⟩ := exists_right_of_forall₂ (mapM_eq_ok_iff.1 h) ha
  exact ⟨b, hb⟩

/-- What comes of calls came of one of them. -/
theorem exists_of_mem_mapM_ok {f : α → Except ε β} {l : List α} {m : List β} (h : l.mapM f = .ok m) {b : β}
    (hb : b ∈ m) : ∃ a ∈ l, f a = .ok b :=
  exists_left_of_forall₂ (mapM_eq_ok_iff.1 h) hb

theorem exists_mapM_ok {f : α → Except ε β} {l : List α} (h : ∀ a ∈ l, ∃ b, f a = .ok b) : ∃ m, l.mapM f = .ok m := by
  induction l with
  | nil => exact ⟨[], rfl⟩
  | cons a l ih =>
    obtain ⟨⟨b, hb⟩, hrest⟩ := List.forall_mem_cons.1 h
    obtain ⟨m, hm⟩ := ih hrest
    exact ⟨b :: m, by rw [List.mapM_cons, hb, hm]; rfl⟩

/-- Calls for the items that are kept give what is kept of all that comes of calls. -/
theorem mapM_filter_ok {f : α → Except ε β} {p : α → Bool} {q : β → Bool} {l : List α} {m : List β} (h : l.mapM f = .ok m)
    (hkept : ∀ a b, f a = .ok b → p a = q b) : (l.filter p).mapM f = .ok (m.filter q) := by
  rw [mapM_eq_ok_iff] at h ⊢
  induction h with
  | nil => exact .nil
  | @cons a b as bs hab _ ih =>
    rw [List.filter_cons, List.filter_cons, hkept a b hab]
    split
    · exact .cons hab ih
    · exact ih

/-- **Calls that may change places come to the same in any order.** -/
theorem foldlM_perm {σ : Type} {f : σ → α → Except ε σ}
    (hswap : ∀ s a b t u, f s a = .ok t → f t b = .ok u → ∃ t', f s b = .ok t' ∧ f t' a = .ok u)
    {l m : List α} (h : l.Perm m) {s u : σ} (hl : l.foldlM f s = .ok u) : m.foldlM f s = .ok u := by
  induction h generalizing s with
  | nil => exact hl
  | cons a _ ih =>
    rw [List.foldlM_cons, bind_eq_ok] at hl ⊢
    obtain ⟨t, ht, hl⟩ := hl
    exact ⟨t, ht, ih hl⟩
  | swap a b l =>
    simp only [List.foldlM_cons, bind_eq_ok] at hl ⊢
    obtain ⟨t, hb, t', ha, hl⟩ := hl
    obtain ⟨t'', ha', hb'⟩ := hswap s b a t t' hb ha
    exact ⟨t'', ha', t', hb', hl⟩
  | trans _ _ ih₁ ih₂ => exact ih₂ (ih₁ hl)

end Suggest
