/-
# Maps kept in key order

A finite map as the list of its bindings in strictly increasing key order. The order is part of the type, so two
maps with the same bindings are equal (`ext_toList`), and walking a map visits its keys in ascending order.

| operation | meaning |
| --- | --- |
| `get?` | the value bound to a key |
| `alter` | rebind one key, given what it was bound to |
| `insert` | bind a key, whatever it was bound to |
| `erase` | take a binding away |
| `ofList` | insert bindings one after the other, so the last one of a key wins |

Keys are of a type whose order is strict and tells any two of them apart (`Key`). Strings are ordered by code points,
characters by their code point, and lists by their first difference.
-/

namespace Suggest

variable {κ α : Type}

/-- Keys have a strict order in which one of any two different ones is less than the other. -/
class Key (κ : Type) [LT κ] : Prop where
  irrefl (k : κ) : ¬k < k
  trans {a b c : κ} : a < b → b < c → a < c
  eq_of_not_lt {a b : κ} : ¬a < b → ¬b < a → a = b

instance : Key Char where
  irrefl := Char.lt_irrefl
  trans := Char.lt_trans
  eq_of_not_lt h₁ h₂ := Char.le_antisymm (Char.not_lt.1 h₂) (Char.not_lt.1 h₁)

instance : Key String where
  irrefl := String.lt_irrefl
  trans := String.lt_trans
  eq_of_not_lt h₁ h₂ := String.le_antisymm (String.not_lt.1 h₂) (String.not_lt.1 h₁)

instance [LT κ] [Key κ] : Key (List κ) :=
  have : Std.Irrefl (α := κ) (· < ·) := ⟨Key.irrefl⟩
  have : Std.Trichotomous (α := κ) (· < ·) := ⟨fun _ _ => Key.eq_of_not_lt⟩
  have : Trans (α := κ) (· < ·) (· < ·) (· < ·) := ⟨Key.trans⟩
  ⟨List.lt_irrefl, List.lt_trans, fun h₁ h₂ => List.le_antisymm h₂ h₁⟩

/-- A binding list with strictly increasing keys. -/
structure SortedMap (κ α : Type) [LT κ] where
  toList : List (κ × α)
  ordered : (toList.map Prod.fst).Pairwise (· < ·)

namespace SortedMap

theorem lookup_cons_ite [DecidableEq κ] (k k' : κ) (a : α) (l : List (κ × α)) :
    ((k', a) :: l).lookup k = if k = k' then some a else l.lookup k := by
  by_cases h : k = k'
  · simp [h]
  · simp [List.lookup_cons, h, beq_false_of_ne h]

section Raw

variable [LT κ] [DecidableLT κ] [DecidableEq κ]

/-- Rebind `k` in a binding list, before the first larger key. -/
def alterList (k : κ) (f : Option α → α) : List (κ × α) → List (κ × α)
  | [] => [(k, f none)]
  | (k', a) :: rest =>
    if k < k' then (k, f none) :: (k', a) :: rest
    else if k = k' then (k', f (some a)) :: rest
    else (k', a) :: alterList k f rest

theorem mem_keys_alterList {k x : κ} {f : Option α → α} {l : List (κ × α)} :
    x ∈ (alterList k f l).map Prod.fst ↔ x = k ∨ x ∈ l.map Prod.fst := by
  induction l with
  | nil => simp [alterList]
  | cons b rest ih =>
    obtain ⟨k', a⟩ := b
    rw [alterList]
    split
    · simp
    · split
      · subst_vars; simp
      · simp only [List.map_cons, List.mem_cons, ih]; grind

/-- The value bound to `k` after a rebinding is the rebound one. -/
theorem lookup_alterList_self (k : κ) (f : Option α → α) (l : List (κ × α))
    (h : (l.map Prod.fst).Pairwise (· < ·)) [Key κ] :
    (alterList k f l).lookup k = some (f (l.lookup k)) := by
  induction l with
  | nil => simp [alterList]
  | cons b rest ih =>
    obtain ⟨k', a⟩ := b
    simp only [List.map_cons, List.pairwise_cons] at h
    rw [alterList]
    split
    · next hlt =>
      have hne : k ≠ k' := fun e => Key.irrefl k (e ▸ hlt)
      have hnone : rest.lookup k = none := by
        refine List.lookup_eq_none_iff.2 fun p hp => ?_
        have hk : k < p.1 := Key.trans hlt (h.1 p.1 (List.mem_map_of_mem hp))
        simp only [bne_iff_ne, ne_eq]
        exact fun e => Key.irrefl k (e ▸ hk)
      simp [lookup_cons_ite, hne, hnone]
    · split
      · subst_vars; simp
      · next hne => simp [lookup_cons_ite, hne, ih h.2]

/-- A rebinding leaves the other keys alone. -/
theorem lookup_alterList_of_ne {k x : κ} (hx : x ≠ k) (f : Option α → α) (l : List (κ × α)) :
    (alterList k f l).lookup x = l.lookup x := by
  induction l with
  | nil => simp [alterList, lookup_cons_ite, hx]
  | cons b rest ih =>
    obtain ⟨k', a⟩ := b
    rw [alterList]
    split
    · simp [lookup_cons_ite, hx]
    · split
      · subst_vars; simp [lookup_cons_ite, hx]
      · simp [lookup_cons_ite, ih]

theorem ordered_alterList [Key κ] (k : κ) (f : Option α → α) {l : List (κ × α)}
    (h : (l.map Prod.fst).Pairwise (· < ·)) : ((alterList k f l).map Prod.fst).Pairwise (· < ·) := by
  induction l with
  | nil => simp [alterList]
  | cons b rest ih =>
    obtain ⟨k', a⟩ := b
    simp only [List.map_cons, List.pairwise_cons] at h
    rw [alterList]
    split
    · next hlt =>
      simp only [List.map_cons, List.pairwise_cons, List.mem_cons]
      exact ⟨fun x hx => hx.elim (· ▸ hlt) fun hx => Key.trans hlt (h.1 x hx), h⟩
    · split
      · simpa using h
      · next hlt hne =>
        simp only [List.map_cons, List.pairwise_cons]
        refine ⟨fun x hx => ?_, ih h.2⟩
        rcases mem_keys_alterList.1 hx with rfl | hx
        · exact Classical.byContradiction fun hgt => hne (Key.eq_of_not_lt hlt hgt)
        · exact h.1 x hx

end Raw

section Lookup

variable [LT κ]

/-- The map without bindings. -/
def empty : SortedMap κ α := ⟨[], .nil⟩

instance : EmptyCollection (SortedMap κ α) := ⟨empty⟩

instance : Inhabited (SortedMap κ α) := ⟨empty⟩

theorem ext_toList {m n : SortedMap κ α} (h : m.toList = n.toList) : m = n := by
  cases m; cases n; cases h; rfl

instance [DecidableEq κ] [DecidableEq α] : DecidableEq (SortedMap κ α) := fun m n =>
  decidable_of_iff (m.toList = n.toList) ⟨ext_toList, congrArg toList⟩

/-- The keys, in ascending order. -/
def keys (m : SortedMap κ α) : List κ := m.toList.map Prod.fst

/-- The values, in ascending order of their keys. -/
def values (m : SortedMap κ α) : List α := m.toList.map Prod.snd

/-- How many keys are bound. -/
def size (m : SortedMap κ α) : Nat := m.toList.length

/-- Whether no key is bound. -/
def isEmpty (m : SortedMap κ α) : Bool := m.toList.isEmpty

/-- The value bound to `k`. -/
def get? [DecidableEq κ] (m : SortedMap κ α) (k : κ) : Option α := m.toList.lookup k

@[simp] theorem get?_empty [DecidableEq κ] (k : κ) : (∅ : SortedMap κ α).get? k = none := rfl

/-- The map without a binding of `k`. -/
def erase [DecidableEq κ] (m : SortedMap κ α) (k : κ) : SortedMap κ α :=
  ⟨m.toList.filter fun b => b.1 ≠ k, (m.ordered.sublist ((List.filter_sublist (l := m.toList)).map Prod.fst))⟩

@[simp] theorem get?_erase_self [DecidableEq κ] (m : SortedMap κ α) (k : κ) : (m.erase k).get? k = none := by
  refine List.lookup_eq_none_iff.2 fun p hp => ?_
  simp only [erase, List.mem_filter, decide_eq_true_eq] at hp
  simpa using Ne.symm hp.2

end Lookup

variable [LT κ] [DecidableLT κ] [DecidableEq κ] [Key κ]

/-- Rebind `k` to `f` of what it was bound to. -/
def alter (m : SortedMap κ α) (k : κ) (f : Option α → α) : SortedMap κ α :=
  ⟨alterList k f m.toList, ordered_alterList k f m.ordered⟩

/-- Bind `k` to `a`. -/
def insert (m : SortedMap κ α) (k : κ) (a : α) : SortedMap κ α := m.alter k fun _ => a

/-- Insert bindings one after the other. -/
def ofList (bindings : List (κ × α)) : SortedMap κ α := bindings.foldl (fun m b => m.insert b.1 b.2) ∅

@[simp] theorem get?_alter_self (m : SortedMap κ α) (k : κ) (f : Option α → α) :
    (m.alter k f).get? k = some (f (m.get? k)) :=
  lookup_alterList_self k f m.toList m.ordered

theorem get?_alter_of_ne (m : SortedMap κ α) {k x : κ} (h : x ≠ k) (f : Option α → α) :
    (m.alter k f).get? x = m.get? x :=
  lookup_alterList_of_ne h f m.toList

theorem mem_keys_alter {m : SortedMap κ α} {k x : κ} {f : Option α → α} :
    x ∈ (m.alter k f).keys ↔ x = k ∨ x ∈ m.keys :=
  mem_keys_alterList

end SortedMap

end Suggest
