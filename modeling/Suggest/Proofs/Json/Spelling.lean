/-
# Written documents are taken apart again

`Spells cs d` says that the text `cs` is scanned as the draft `d`, whatever stands behind it that may end a value.  Texts
that spell something are put together as written parts are:

| text | draft |
| --- | --- |
| `Json.string s` | the text `s` without faults |
| the text of a number | the number that it reads as, or `null` for one that is not finite (`numberDraft`) |
| `Json.array` of texts | the array of their drafts |
| `Json.object` of names and texts | the object of the names and the drafts |

A text has to be given more steps than it has characters, which is less than `Document.scan` takes.
-/

import Suggest.Proofs.Json.Decimals
import Suggest.Proofs.Json.Strings

namespace Suggest
namespace Json

open Text (Glyph)

/-- The text is scanned as the draft, and neither a blank nor the end of an array is in front of it. -/
structure Spells (cs : List Char) (d : Draft) : Prop where
  starts : ∃ c more, cs = c :: more ∧ isBlank c = false ∧ c ≠ ']'
  scans : ∀ (fuel : Nat) (rest : List Glyph), cs.length < fuel → Ends rest →
    scanValue fuel (cs.map .char ++ rest) = (d, rest)

theorem skipBlanks_of_not_blank {c : Char} (h : isBlank c = false) (rest : List Glyph) :
    skipBlanks (.char c :: rest) = .char c :: rest := by
  simp [skipBlanks, h]

theorem skipBlanks_of_ends {rest : List Glyph} (h : Ends rest) : skipBlanks rest = rest := by
  cases rest with
  | nil => rfl
  | cons g more => rcases h g more rfl with rfl | rfl | rfl <;> rfl

/-- A string is scanned as its text, whatever follows it. -/
theorem scanValue_string (fuel : Nat) (s : String) (rest : List Glyph) :
    scanValue (fuel + 1) ((string s).map .char ++ rest) = (.ofText s, rest) := by
  rw [scanValue, string, List.map_cons, List.cons_append, skipBlanks_of_not_blank (by decide)]
  simp only [↓reduceIte, scanString, Literal.scan_string, Literal.content_pieces, Draft.ofText]

theorem spells_string (s : String) : Spells (string s) (.ofText s) where
  starts := ⟨'"', _, rfl, by decide, by decide⟩
  scans fuel rest h _ := by
    obtain ⟨fuel, rfl⟩ := Nat.exists_eq_add_of_le' (Nat.zero_lt_of_lt h)
    exact scanValue_string fuel s rest

theorem spells_null : Spells null .null where
  starts := ⟨'n', _, rfl, by decide, by decide⟩
  scans fuel rest h _ := by
    obtain ⟨fuel, rfl⟩ := Nat.exists_eq_add_of_le' (Nat.zero_lt_of_lt h)
    rw [scanValue, null, List.map_cons, List.cons_append, skipBlanks_of_not_blank (by decide)]
    simp [scanWord, scanLetters]

theorem spells_bool (b : Bool) : Spells (bool b) (.bool b) where
  starts := by cases b <;> exact ⟨_, _, rfl, by decide, by decide⟩
  scans fuel rest h _ := by
    obtain ⟨fuel, rfl⟩ := Nat.exists_eq_add_of_le' (Nat.zero_lt_of_lt h)
    cases b
    all_goals
      rw [scanValue, bool]
      simp [skipBlanks_of_not_blank, isBlank, scanWord, scanLetters]

/-- Whether a numeral can start with the character. -/
def StartsNumeral (c : Char) : Prop := c = '-' ∨ '0' ≤ c ∧ c ≤ '9'

instance (c : Char) : Decidable (StartsNumeral c) := inferInstanceAs (Decidable (_ ∨ _ ∧ _))

theorem StartsNumeral.ne {c d : Char} (hc : StartsNumeral c) (hd : ¬StartsNumeral d) : c ≠ d := by
  rintro rfl
  exact hd hc

theorem StartsNumeral.isBlank {c : Char} (h : StartsNumeral c) : isBlank c = false := by
  simp [Json.isBlank, h.ne (d := ' ') (by decide), h.ne (d := '\t') (by decide), h.ne (d := '\n') (by decide),
    h.ne (d := '\r') (by decide)]

/-- A text that is scanned as a numeral starts like one. -/
theorem IsNumeral.starts {cs : List Char} (h : IsNumeral cs) : ∃ c more, cs = c :: more ∧ StartsNumeral c := by
  obtain ⟨numeral, hscan⟩ := h
  cases cs with
  | nil => cases hscan
  | cons c more =>
    refine ⟨c, more, rfl, Classical.byContradiction fun hc => ?_⟩
    rw [StartsNumeral, not_or] at hc
    have hminus : Numeral.minus ((c :: more).map .char) = (false, .char c :: more.map .char) := by
      simp [Numeral.minus, hc.1]
    have hdigits : Numeral.digits (.char c :: more.map .char) = ([], .char c :: more.map .char) := by
      simp only [Numeral.digits, Numeral.digit?, if_neg hc.2]
    rw [Numeral.scan, hminus] at hscan
    simp [Numeral.scanWhole, hdigits, bind, Except.bind] at hscan

/-- The draft of the text of a number: a number, which may be out of range, if the text is that of one, and else nothing. -/
def numberDraft (cs : List Char) : Draft :=
  match Numeral.scan (cs.map .char) with
  | .ok (numeral, []) =>
    .number ⟨match numeral.number? with
      | some n => .ok n
      | none => .error .malformed, none⟩
  | _ => .null

theorem ReadsAs.isNumeral {cs : List Char} {n : Number} (h : ReadsAs cs n) : IsNumeral cs := by
  obtain ⟨numeral, hscan, -⟩ := readsAs_iff.1 h
  exact ⟨numeral, hscan⟩

theorem numberDraft_of_readsAs {cs : List Char} {n : Number} (h : ReadsAs cs n) :
    numberDraft cs = .number ⟨.ok n, none⟩ := by
  obtain ⟨numeral, hscan, hn⟩ := readsAs_iff.1 h
  rw [numberDraft, hscan]
  simp only [hn]

/-- The text of a number is read back as a number, or it is out of range, or it is no numeral. -/
theorem numberDraft_cases (cs : List Char) :
    (∃ n, ReadsAs cs n ∧ numberDraft cs = .number ⟨.ok n, none⟩) ∨
      numberOf? cs = none ∧ (numberDraft cs = .number ⟨.error .malformed, none⟩ ∨ numberDraft cs = .null) := by
  cases hn : numberOf? cs with
  | some n => exact .inl ⟨n, hn, numberDraft_of_readsAs hn⟩
  | none =>
    refine .inr ⟨rfl, ?_⟩
    unfold numberOf? at hn
    unfold numberDraft
    match hscan : Numeral.scan (cs.map .char) with
    | .error _ => exact .inr rfl
    | .ok (_, _ :: _) => exact .inr rfl
    | .ok (numeral, []) =>
      have hn : numeral.number? = none := by simpa only [hscan] using hn
      exact .inl (by simp only [hn])

/-- **A numeral is scanned as a number.** -/
theorem spells_numeral {cs : List Char} (h : IsNumeral cs) : Spells cs (numberDraft cs) where
  starts := by
    obtain ⟨c, more, rfl, hc⟩ := h.starts
    exact ⟨c, more, rfl, hc.isBlank, hc.ne (by decide)⟩
  scans fuel rest hfuel hrest := by
    obtain ⟨fuel, rfl⟩ := Nat.exists_eq_add_of_le' (Nat.zero_lt_of_lt hfuel)
    obtain ⟨c, more, rfl, hc⟩ := h.starts
    obtain ⟨numeral, hscan⟩ := h
    have hne : ∀ d : Char, ¬StartsNumeral d → c ≠ d := fun d hd => hc.ne hd
    rw [numberDraft, hscan]
    replace hscan := Numeral.scan_append hrest hscan
    rw [List.map_cons, List.cons_append] at hscan ⊢
    rw [scanValue, skipBlanks_of_not_blank hc.isBlank]
    simp only [hne '"' (by decide), hne '[' (by decide), hne '{' (by decide), hne 'n' (by decide),
      hne 't' (by decide), hne 'f' (by decide), if_false, scanNumber, hscan]
    exact if_pos hc

theorem spells_number {cs : List Char} {n : Number} (h : ReadsAs cs n) : Spells cs (.number ⟨.ok n, none⟩) := by
  rw [← numberDraft_of_readsAs h]
  exact spells_numeral h.isNumeral

/-- Every number of a binary format is scanned as a number or as nothing. -/
theorem spells_binary {f : Format} (l : Layout) (x : Binary f) : Spells (binary l x) (numberDraft (binary l x)) := by
  cases x with
  | nan | infinite => exact spells_null
  | finite negative k => exact spells_numeral (isNumeral_binary l rfl)

/-! ### Arrays and objects -/

theorem ends_comma (more : List Glyph) : Ends (.char ',' :: more) := ends_cons (.inl rfl) more

theorem ends_bracket (more : List Glyph) : Ends (.char ']' :: more) := ends_cons (.inr (.inl rfl)) more

theorem ends_brace (more : List Glyph) : Ends (.char '}' :: more) := ends_cons (.inr (.inr rfl)) more

variable {α : Type}

theorem separated_cons_cons (part next : List Char) (rest : List (List Char)) :
    separated (part :: next :: rest) = part ++ ',' :: separated (next :: rest) := rfl

/-- Parts with commas between them start like the first part. -/
theorem exists_separated_eq_append (part : List Char) (rest : List (List Char)) :
    ∃ more, separated (part :: rest) = part ++ more := by
  cases rest with
  | nil => exact ⟨[], (List.append_nil part).symm⟩
  | cons next rest => exact ⟨_, separated_cons_cons part next rest⟩

/-- The items behind the opening bracket of an array. -/
theorem scanItems_separated {text : α → List Char} {draft : α → Draft} {items : List α} (hne : items ≠ [])
    (h : ∀ x ∈ items, Spells (text x) (draft x)) (fuel : Nat) (rest : List Glyph)
    (hfuel : (separated (items.map text)).length + 1 < fuel) :
    scanItems fuel ((separated (items.map text)).map .char ++ .char ']' :: rest) = (items.map draft, none, rest) := by
  induction items generalizing fuel with
  | nil => exact absurd rfl hne
  | cons x items ih =>
    obtain ⟨fuel, rfl⟩ := Nat.exists_eq_add_of_le' (Nat.zero_lt_of_lt hfuel)
    have hx := h x (by simp)
    cases items with
    | nil =>
      simp only [List.map_cons, List.map_nil, separated] at hfuel ⊢
      rw [scanItems, hx.scans fuel _ (by omega) (ends_bracket rest)]
      simp only [skipBlanks_of_ends (ends_bracket rest)]
    | cons y items =>
      rw [List.map_cons, List.map_cons, separated_cons_cons] at hfuel ⊢
      simp only [List.length_append, List.length_cons] at hfuel
      have hitems := ih (by simp) (fun z hz => h z (by simp [hz])) fuel (by simp only [List.map_cons]; omega)
      rw [List.map_append, List.map_cons, List.append_assoc, List.cons_append, scanItems,
        hx.scans fuel _ (by omega) (ends_comma _)]
      simp only [List.map_cons] at hitems
      simp only [skipBlanks_of_ends (ends_comma _), hitems]
      rfl

/-- An array that does not end at once is scanned item by item. -/
theorem scanValue_bracket {c : Char} (hblank : isBlank c = false) (hc : c ≠ ']') (fuel : Nat) (more : List Glyph) :
    scanValue (fuel + 1) (.char '[' :: .char c :: more) =
      (.array (scanItems fuel (.char c :: more)).1 (scanItems fuel (.char c :: more)).2.1,
        (scanItems fuel (.char c :: more)).2.2) := by
  rw [scanValue, skipBlanks_of_not_blank (by decide)]
  simp [skipBlanks_of_not_blank hblank, hc]

/-- **An array of written items is scanned as their drafts.** -/
theorem spells_array {text : α → List Char} {draft : α → Draft} {items : List α}
    (h : ∀ x ∈ items, Spells (text x) (draft x)) : Spells (array (items.map text)) (.array (items.map draft) none) where
  starts := ⟨'[', _, rfl, by decide, by decide⟩
  scans fuel rest hfuel _ := by
    obtain ⟨fuel, rfl⟩ := Nat.exists_eq_add_of_le' (Nat.zero_lt_of_lt hfuel)
    rw [array] at hfuel ⊢
    simp only [List.length_append, List.length_cons, List.length_nil] at hfuel
    rw [List.map_cons, List.map_append, List.cons_append, List.append_assoc]
    cases items with
    | nil =>
      rw [scanValue, skipBlanks_of_not_blank (by decide)]
      simp [separated, skipBlanks_of_not_blank, isBlank]
    | cons x items =>
      have hitems := scanItems_separated (by simp) h fuel rest (by omega)
      obtain ⟨c, cs, hcs, hblank, hc⟩ := (h x (by simp)).starts
      obtain ⟨more, hmore⟩ := exists_separated_eq_append (text x) (items.map text)
      have hstart : separated ((x :: items).map text) = c :: (cs ++ more) := by
        rw [List.map_cons, hmore, hcs, List.cons_append]
      rw [hstart, List.map_cons, List.cons_append] at hitems ⊢
      rw [List.map_singleton, List.singleton_append, scanValue_bracket hblank hc, hitems]

/-- An object that does not end at once is scanned member by member. -/
theorem scanValue_brace {c : Char} (hblank : isBlank c = false) (hc : c ≠ '}') (fuel : Nat) (more : List Glyph) :
    scanValue (fuel + 1) (.char '{' :: .char c :: more) =
      (.object (scanMembers fuel (.char c :: more)).1 (scanMembers fuel (.char c :: more)).2.1,
        (scanMembers fuel (.char c :: more)).2.2) := by
  rw [scanValue, skipBlanks_of_not_blank (by decide)]
  simp [skipBlanks_of_not_blank hblank, hc]

/-- The last member of an object. -/
theorem scanMembers_last {text : List Char} {draft : Draft} (h : Spells text draft) {fuel : Nat}
    (hfuel : text.length ≤ fuel) (name : String) (rest : List Glyph) :
    scanMembers (fuel + 2) ((member name text).map .char ++ .char '}' :: rest) =
      ([(.ofText name, draft)], none, rest) := by
  have hvalue := h.scans (fuel + 1) _ (by omega) (ends_brace rest)
  rw [member, List.map_append, List.map_cons, List.append_assoc, List.cons_append, scanMembers, scanValue_string]
  simp only [skipBlanks_of_not_blank (show isBlank ':' = false by decide), hvalue,
    skipBlanks_of_ends (ends_brace rest)]

/-- A member of an object with more members behind it. -/
theorem scanMembers_comma {text : List Char} {draft : Draft} (h : Spells text draft) {fuel : Nat}
    (hfuel : text.length ≤ fuel) (name : String) {more rest : List Glyph} {members : List (Draft × Draft)}
    (hmore : scanMembers (fuel + 1) more = (members, none, rest)) :
    scanMembers (fuel + 2) ((member name text).map .char ++ .char ',' :: more) =
      ((.ofText name, draft) :: members, none, rest) := by
  have hvalue := h.scans (fuel + 1) _ (by omega) (ends_comma more)
  rw [member, List.map_append, List.map_cons, List.append_assoc, List.cons_append, scanMembers, scanValue_string]
  simp only [skipBlanks_of_not_blank (show isBlank ':' = false by decide), hvalue,
    skipBlanks_of_ends (ends_comma more), hmore]

/-- The members behind the opening brace of an object. -/
theorem scanMembers_separated (name : α → String) {text : α → List Char} {draft : α → Draft} {members : List α}
    (hne : members ≠ []) (h : ∀ x ∈ members, Spells (text x) (draft x)) (fuel : Nat) (rest : List Glyph)
    (hfuel : (separated (members.map fun x => member (name x) (text x))).length + 1 < fuel) :
    scanMembers fuel ((separated (members.map fun x => member (name x) (text x))).map .char ++ .char '}' :: rest) =
      (members.map fun x => (.ofText (name x), draft x), none, rest) := by
  induction members generalizing fuel with
  | nil => exact absurd rfl hne
  | cons x members ih =>
    obtain ⟨fuel, rfl⟩ := Nat.exists_eq_add_of_le' (show 2 ≤ fuel by omega)
    have hx := h x (by simp)
    have hlength : (text x).length + 3 ≤ (member (name x) (text x)).length := by simp [member, string]
    cases members with
    | nil =>
      simp only [List.map_cons, List.map_nil, separated] at hfuel ⊢
      exact scanMembers_last hx (by omega) (name x) rest
    | cons y members =>
      rw [List.map_cons, List.map_cons, separated_cons_cons] at hfuel ⊢
      simp only [List.length_append, List.length_cons] at hfuel
      have hmembers := ih (by simp) (fun z hz => h z (by simp [hz])) (fuel + 1)
        (by rw [List.map_cons]; omega)
      rw [List.map_append, List.map_cons, List.append_assoc, List.cons_append]
      exact scanMembers_comma hx (by omega) (name x) hmembers

/-- **An object of written members is scanned as their names and drafts.** -/
theorem spells_object {name : α → String} {text : α → List Char} {draft : α → Draft} {members : List α}
    (h : ∀ x ∈ members, Spells (text x) (draft x)) :
    Spells (object (members.map fun x => (name x, text x)))
      (.object (members.map fun x => (.ofText (name x), draft x)) none) where
  starts := ⟨'{', _, rfl, by decide, by decide⟩
  scans fuel rest hfuel _ := by
    obtain ⟨fuel, rfl⟩ := Nat.exists_eq_add_of_le' (Nat.zero_lt_of_lt hfuel)
    rw [object, List.map_map] at hfuel ⊢
    simp only [List.length_append, List.length_cons, List.length_nil, Function.comp_def] at hfuel ⊢
    rw [List.map_cons, List.map_append, List.cons_append, List.append_assoc]
    cases members with
    | nil =>
      rw [scanValue, skipBlanks_of_not_blank (by decide)]
      simp [separated, skipBlanks_of_not_blank, isBlank]
    | cons x members =>
      have hmembers := scanMembers_separated name (by simp) h fuel rest (by omega)
      obtain ⟨more, hmore⟩ := exists_separated_eq_append (member (name x) (text x))
        (members.map fun x => member (name x) (text x))
      have hstart : separated ((x :: members).map fun x => member (name x) (text x)) =
          '"' :: ((name x).toList.flatMap escape ++ ['"'] ++ ':' :: text x ++ more) := by
        rw [List.map_cons, hmore, member, string, List.cons_append, List.cons_append]
      rw [hstart, List.map_cons, List.cons_append] at hmembers ⊢
      rw [List.map_singleton, List.singleton_append, scanValue_brace (by decide) (by decide), hmembers]

/-- **A written document is scanned as its draft, and nothing else is found in it.** -/
theorem Spells.scan {cs : List Char} {d : Draft} (h : Spells cs d) : Document.scan (cs.map .char) = ⟨d, none⟩ := by
  have hscan := h.scans (2 * (cs.map Glyph.char).length + 2) [] (by rw [List.length_map]; omega) ends_nil
  rw [List.append_nil] at hscan
  rw [Document.scan, hscan]
  rfl

end Json
end Suggest
