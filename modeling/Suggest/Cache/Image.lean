/-
# The image of a durable cache

A durable cache as one sequence of bytes, to be kept in a file. It starts with a mark, a byte that is in no text. Every key
and everything under a key is a piece: 8 bytes that tell how long it is, little-endian, and the bytes themselves. Pieces
of less than `2 ^ 64` bytes are read back (`pieces?_flatMap_piece`).
-/

import Suggest.Cache.Durable

namespace Suggest

namespace DurableCache

/-- Bytes with their number in front. -/
def piece (content : Bytes) : Bytes := LittleEndian.encode 8 content.length ++ content

/-- The first piece of an image, and what is left of the image. -/
def takePiece? (raw : Bytes) : Option (Bytes × Bytes) :=
  let length := LittleEndian.decode (raw.take 8)
  let rest := raw.drop 8
  if raw.length < 8 || rest.length < length then none else some (rest.take length, rest.drop length)

theorem length_lt_of_takePiece? {raw content rest : Bytes} (h : takePiece? raw = some (content, rest)) :
    rest.length < raw.length := by
  simp only [takePiece?, Option.ite_none_left_eq_some, Option.some.injEq, Prod.mk.injEq, Bool.or_eq_true,
    decide_eq_true_eq] at h
  obtain ⟨hraw, -, rfl⟩ := h
  simp only [List.length_drop]
  omega

/-- A piece in front is taken as it was put there. -/
theorem takePiece?_piece {content : Bytes} (h : content.length < 1 <<< 64) (rest : Bytes) :
    takePiece? (piece content ++ rest) = some (content, rest) := by
  have hlen : LittleEndian.decode (LittleEndian.encode 8 content.length) = content.length :=
    LittleEndian.decode_encode (by simpa using h)
  have htake : (piece content ++ rest).take 8 = LittleEndian.encode 8 content.length := by
    rw [piece, List.append_assoc, List.take_append_of_le_length (by simp)]
    exact List.take_of_length_le (by simp)
  have hdrop : (piece content ++ rest).drop 8 = content ++ rest := by
    rw [piece, List.append_assoc, List.drop_append]
    simp [List.drop_of_length_le]
  simp only [takePiece?, htake, hdrop, hlen]
  rw [if_neg (by simp [piece])]
  simp

/-- All pieces of an image. -/
def pieces? (raw : Bytes) : Option (List Bytes) :=
  if raw = [] then some []
  else match _h : takePiece? raw with
    | none => none
    | some (content, rest) => (pieces? rest).map (content :: ·)
termination_by raw.length
decreasing_by exact length_lt_of_takePiece? _h

theorem pieces?_flatMap_piece {contents : List Bytes} (h : ∀ c ∈ contents, c.length < 1 <<< 64) :
    pieces? (contents.flatMap piece) = some contents := by
  induction contents with
  | nil => simp [pieces?]
  | cons content contents ih =>
    have hne : piece content ++ contents.flatMap piece ≠ [] := fun e => by
      have := congrArg List.length e
      simp [piece] at this
    have hrest := ih fun c hc => h c (List.mem_cons_of_mem _ hc)
    rw [List.flatMap_cons, pieces?, if_neg hne]
    split
    · next heq => simp [takePiece?_piece (h content List.mem_cons_self)] at heq
    · next heq =>
      rw [takePiece?_piece (h content List.mem_cons_self)] at heq
      obtain ⟨rfl, rfl⟩ := heq
      simp [hrest]

/-- What pieces bind to what, if they come in pairs. -/
def bindings? : List Bytes → Option (List (String × Bytes))
  | [] => some []
  | [_] => none
  | key :: raw :: rest => do return (← Text.text? key, raw) :: (← bindings? rest)

/-- What an image starts with. -/
def mark : UInt8 := 0xFF

/-- The image of a cache. -/
def image (c : DurableCache) : Bytes :=
  mark :: c.entries.toList.flatMap fun (key, raw) => piece (Text.bytes key) ++ piece raw

/-- The cache of an image. -/
def ofImage? : Bytes → Option DurableCache
  | [] => none
  | first :: raw => if first = mark then do return ⟨.ofList (← bindings? (← pieces? raw))⟩ else none

end DurableCache

end Suggest
