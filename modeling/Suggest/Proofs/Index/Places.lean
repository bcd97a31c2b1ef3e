/-
# The places of what is found inside texts

Looking for a needle in the texts of postings finds the entries under every key that contains it, key by key in ascending
order (`substringHits_eq`).  Each of them is weighted by the first place of the needle in its key, counted in characters.  A
needle that is not empty takes room behind that place, so the place lies below the length of the key, the length is not zero,
and the factor is always the one that falls with the place (`offsetIn_add_length_le`, `positionFactor_offsetIn`).
-/

import Suggest.Postings
import Suggest.Proofs.Text.Occurrences

namespace Suggest
namespace Postings

variable {needle key : String}

/-- The first place of a needle in a key that contains it. -/
def offsetIn (needle key : String) : Nat := (Text.charOffset? key needle).getD 0

theorem charOffset?_eq_offsetIn (h : needle.toList <:+: key.toList) :
    Text.charOffset? key needle = some (offsetIn needle key) := by
  obtain ⟨k, hk⟩ := Option.isSome_iff_exists.1 (Text.charOffset?_isSome_iff.2 h)
  rw [offsetIn, hk, Option.getD_some]

/-- **Behind the first place there is room for the needle.** -/
theorem offsetIn_add_length_le (h : needle.toList <:+: key.toList) :
    offsetIn needle key + needle.length ≤ key.length := by
  have hoffset := charOffset?_eq_offsetIn h
  rw [Text.charOffset?_eq] at hoffset
  exact Text.add_length_le_of_offset? hoffset

theorem offsetIn_lt_length (hne : needle ≠ "") (h : needle.toList <:+: key.toList) :
    offsetIn needle key < key.length := by
  have hroom := offsetIn_add_length_le h
  have hneedle : 0 < needle.length := by
    rw [← String.length_toList, List.length_pos_iff]
    exact fun hnil => hne (String.toList_eq_nil_iff.1 hnil)
  omega

/-- **The factor of a hit falls with its place.** -/
theorem positionFactor_offsetIn (hne : needle ≠ "") (h : needle.toList <:+: key.toList) (ranking : Ranking) :
    ranking.positionFactor (offsetIn needle key) key.length =
      Binary.one.sub (((Binary.ofNat (offsetIn needle key)).div (Binary.ofNat key.length)).mul ranking.positionDecay) :=
  if_neg (Nat.ne_of_gt (Nat.zero_lt_of_lt (offsetIn_lt_length hne h)))

/-- What stands under a key is found if the key contains the needle. -/
theorem hitsUnder_eq (ranking : Ranking) (weight : Single) (entries : List Entry) :
    hitsUnder needle ranking weight key entries =
      if needle.toList <:+: key.toList then
        entries.map fun e => e.scaled ((ranking.positionFactor (offsetIn needle key) key.length).mul weight)
      else [] := by
  rw [hitsUnder]
  by_cases h : needle.toList <:+: key.toList
  · rw [charOffset?_eq_offsetIn h, if_pos h]
  · rw [if_neg h]
    rw [← Text.charOffset?_isSome_iff, Option.not_isSome_iff_eq_none] at h
    rw [h]

theorem flatMap_ite_eq_flatMap_filter {α β : Type} (l : List α) (P : α → Prop) [DecidablePred P] (f : α → List β) :
    (l.flatMap fun a => if P a then f a else []) = (l.filter P).flatMap f := by
  induction l with
  | nil => rfl
  | cons a l ih =>
    rw [List.flatMap_cons, ih, List.filter_cons]
    by_cases h : P a <;> simp [h]

/-- **What is found inside texts** is what stands under the keys that contain the needle, key by key. -/
theorem substringHits_eq (p : Postings) (hne : needle ≠ "") (ranking : Ranking) (weight : Single) :
    p.substringHits needle ranking weight =
      (p.toList.filter fun b => needle.toList <:+: b.1.toList).flatMap fun b =>
        b.2.map fun e => e.scaled ((ranking.positionFactor (offsetIn needle b.1) b.1.length).mul weight) := by
  rw [substringHits, if_neg (by rwa [String.isEmpty_iff]), ← flatMap_ite_eq_flatMap_filter]
  simp only [hitsUnder_eq]

/-- **Hits are weighted by their first places, in characters.**  The offset of a needle is the least one from which on the rest
of the text starts with it, and there is none exactly if it does not occur; where the bytes of the needle are found, the bytes in
front are the encoding of the characters in front.  Under every key that contains a needle that is not empty, and only there,
entries are found inside the texts of postings, in the order of the keys, and each is weighted by an offset that leaves room for
the needle and lies below the length, so that the length is not zero. -/
theorem hits_at_first_places :
    (∀ haystack needle : String,
      (∀ k, Text.charOffset? haystack needle = some k ↔ IsLeast {j | needle.toList <+: haystack.toList.drop j} k) ∧
      (Text.charOffset? haystack needle = none ↔ ¬needle.toList <:+: haystack.toList) ∧
      ∀ place, Text.byteOffset? haystack needle = some place → ∃ k, Text.charOffset? haystack needle = some k ∧
        (Text.bytes haystack).take place = Text.utf8 (haystack.toList.take k)) ∧
    ∀ (p : Postings) (needle : String), needle ≠ "" → ∀ (ranking : Ranking) (weight : Single),
      p.keys.Pairwise (· < ·) ∧ ∃ offset : String → Nat,
        (∀ key, needle.toList <:+: key.toList →
          Text.charOffset? key needle = some (offset key) ∧
          offset key + needle.length ≤ key.length ∧ key.length ≠ 0 ∧ offset key < key.length ∧
          ranking.positionFactor (offset key) key.length =
            Binary.one.sub (((Binary.ofNat (offset key)).div (Binary.ofNat key.length)).mul ranking.positionDecay)) ∧
        p.substringHits needle ranking weight =
          (p.toList.filter fun b => needle.toList <:+: b.1.toList).flatMap fun b =>
            b.2.map fun e => e.scaled ((ranking.positionFactor (offset b.1) b.1.length).mul weight) := by
  refine ⟨fun haystack needle => ⟨fun k => Text.charOffset?_eq_some_iff, ?_, fun place => Text.exists_of_byteOffset?⟩, ?_⟩
  · rw [← Text.charOffset?_isSome_iff, Option.not_isSome_iff_eq_none]
  · intro p needle hne ranking weight
    refine ⟨p.ordered, offsetIn needle, fun key hkey => ?_, substringHits_eq p hne ranking weight⟩
    have hbelow := offsetIn_lt_length hne hkey
    exact ⟨charOffset?_eq_offsetIn hkey, offsetIn_add_length_le hkey, Nat.ne_of_gt (Nat.zero_lt_of_lt hbelow), hbelow,
      positionFactor_offsetIn hne hkey ranking⟩

/-- Two entries under texts with characters of two bytes. -/
def desserts : Postings :=
  (addText ∅ "Crème brûlée" { id := "1", text := "Crème brûlée", category := "item" }).addText "Brûlé"
    { id := "2", text := "Brûlé", category := "item" }

theorem hits_at_first_places_accented :
    (∃ k, Text.charOffset? "crème brûlée" "brû" = some k ∧
        (Text.bytes "crème brûlée").take 7 = Text.utf8 ("crème brûlée".toList.take k)) ∧
      (desserts.substringHits "brû" {} .one).map Entry.id = ["2", "1"] := by
  obtain ⟨hplaces, hhits⟩ := hits_at_first_places
  obtain ⟨-, offset, -, heq⟩ := hhits desserts "brû" (by decide) {} .one
  have hkeys : (desserts.toList.filter fun b => "brû".toList <:+: b.1.toList).map (fun b => b.2.map Entry.id) =
      [["2"], ["1"]] := by
    decide +kernel
  refine ⟨(hplaces "crème brûlée" "brû").2.2 7 (by decide +kernel), ?_⟩
  rw [heq, List.map_flatMap]
  simp only [List.map_map, Function.comp_def, Entry.scaled, List.flatMap_def, hkeys]
  rfl

end Postings
end Suggest
