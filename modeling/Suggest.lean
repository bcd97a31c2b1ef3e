import Suggest.Main
import Suggest.Server
import Suggest.Proofs.Json.Strings
import Suggest.Proofs.Json.Numbers
import Suggest.Proofs.Json.Spelling
import Suggest.Proofs.SortedMap
import Suggest.Proofs.Outcome
import Suggest.Proofs.Json.Values
import Suggest.Proofs.Json.Embedded
import Suggest.Proofs.Json.Reread
import Suggest.Proofs.Snapshot.Entries
import Suggest.Proofs.Trie.Arena
import Suggest.Proofs.Text.Lower
import Suggest.Proofs.Index.Postings
import Suggest.Proofs.Snapshot.Nodes
import Suggest.Proofs.Trie.Paths
import Suggest.Proofs.Snapshot.RoundTrip
import Suggest.Proofs.Cache.Held
import Suggest.Proofs.Catalog.Snapshots
import Suggest.Proofs.Engine.Coherence
import Suggest.Proofs.Sorting
import Suggest.Proofs.Sorting.Stability
import Suggest.Proofs.Sorting.Merging
import Suggest.Proofs.Sorting.Runs
import Suggest.Proofs.Text.Words
import Suggest.Proofs.Scores
import Suggest.Proofs.Index.Keyword
import Suggest.Proofs.Trie.Matches
import Suggest.Proofs.Trie.Search
import Suggest.Proofs.Index.Hybrid
import Suggest.Proofs.Catalog.Search
import Suggest.Proofs.Trie.Contents
import Suggest.Proofs.Trie.Order
import Suggest.Proofs.Index.Prefix
import Suggest.Proofs.Text.Prefixes
import Suggest.Proofs.Trie.Typed
import Suggest.Proofs.Json.Decimals
import Suggest.Proofs.Json.Fields
import Suggest.Proofs.Snapshot.Decoded
import Suggest.Proofs.Trie.Numbering
import Suggest.Proofs.Trie.Nested
import Suggest.Proofs.Snapshot.OldForms
import Suggest.Proofs.Engine.Clearing
import Suggest.Proofs.Engine.Superseded
import Suggest.Proofs.Server.Tokens
import Suggest.Proofs.Cache.Live
import Suggest.Proofs.Engine.Failing
import Suggest.Proofs.Engine.Starting
import Suggest.Proofs.Server.Refused
import Suggest.Proofs.Scores.AtMostOne
import Suggest.Proofs.Index.Growing
import Suggest.Proofs.Catalog.Growing
import Suggest.Proofs.Trie.Accepted
import Suggest.Proofs.Trie.Bounded
import Suggest.Proofs.Index.Tiers
import Suggest.Proofs.Index.Distinct
import Suggest.Proofs.Index.Merging
import Suggest.Proofs.Trie.Frequencies
import Suggest.Proofs.Catalog.Fields
import Suggest.Proofs.Engine.Queries
import Suggest.Proofs.Cache.Alike
import Suggest.Proofs.Text.Occurrences
import Suggest.Proofs.Server.Origins
import Suggest.Proofs.Text.Runs
import Suggest.Proofs.Index.Places
import Suggest.Proofs.Text.Lines
import Suggest.Proofs.Json.Members
import Suggest.Proofs.Json.OneLine
import Suggest.Proofs.Catalog.Forms
