/-
# Settings and statistics of an engine

| setting | default |
| --- | --- |
| key of the snapshot in the cache | `trie_search_index` |
| lifetime of the snapshot there | an hour |
| limit of a search that asks for no limit | 10 |
| characters that a search must have | 2 |

No search through the engine gives more than 100 entries.
-/

import Suggest.Lifetime
import Suggest.Ranking

namespace Suggest

/-- The settings of an engine. -/
structure Settings where
  cacheKey : String := "trie_search_index"
  lifetime : Lifetime := ⟨3600, 0⟩
  defaultLimit : Nat := 10
  minQueryChars : Nat := 2
  ranking : Ranking := {}
  deriving DecidableEq

namespace Settings

/-- The greatest limit of a search. -/
def maxLimit : Nat := 100

/-- The limit of a search that asks for `limit` entries, where zero asks for nothing in particular. -/
def limitFor (s : Settings) (limit : Nat) : Nat := if limit = 0 then s.defaultLimit else min limit maxLimit

/-- How settings are read. -/
def reader : Json.Reader Settings :=
  Json.Fields.record
    (.cons (.required "cache_key" .text) <|
      .cons (.required "cache_ttl" Lifetime.reader) <|
      .cons (.required "default_limit" (.natural Json.Reader.maxWord)) <|
      .cons (.required "min_query_chars" (.natural Json.Reader.maxWord)) <|
      .cons (.required "ranking" Ranking.reader) .nil)
    fun (cacheKey, lifetime, defaultLimit, minQueryChars, ranking, ()) =>
      ⟨cacheKey, lifetime, defaultLimit, minQueryChars, ranking⟩

/-- Settings in JSON. -/
def write (s : Settings) : List Char :=
  Json.object [
    ("cache_key", Json.string s.cacheKey),
    ("cache_ttl", s.lifetime.write),
    ("default_limit", Json.natural s.defaultLimit),
    ("min_query_chars", Json.natural s.minQueryChars),
    ("ranking", s.ranking.write)]

end Settings

/-- What an engine says about the index it serves. -/
structure Stats where
  loaded : Bool
  totalNodes : Nat
  terminalNodes : Nat
  cacheKey : String
  deriving DecidableEq, Repr

namespace Stats

/-- The members of statistics in JSON. -/
def members (s : Stats) : List (String × List Char) := [
  ("loaded", Json.bool s.loaded),
  ("total_nodes", Json.natural s.totalNodes),
  ("terminal_nodes", Json.natural s.terminalNodes),
  ("cache_key", Json.string s.cacheKey)]

/-- How statistics are read. -/
def reader : Json.Reader Stats :=
  Json.Fields.record
    (.cons (.required "loaded" .bool) <|
      .cons (.required "total_nodes" (.natural Json.Reader.maxWord)) <|
      .cons (.required "terminal_nodes" (.natural Json.Reader.maxWord)) <|
      .cons (.required "cache_key" .text) .nil)
    fun (loaded, totalNodes, terminalNodes, cacheKey, ()) => ⟨loaded, totalNodes, terminalNodes, cacheKey⟩

/-- Statistics in JSON. -/
def write (s : Stats) : List Char := Json.object s.members

end Stats

end Suggest
