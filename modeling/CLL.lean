import CLL.Core.Consistency
import CLL.Core.Range
import CLL.Log.Wire
import CLL.Log.Engine
import CLL.Lib.Lines
import CLL.Log.Jsonl
import CLL.Log.Journal
import CLL.Lib.CanonicalJson
import CLL.Checkpoint.Record
import CLL.Rust.Checkpoint
import CLL.Lib.Run
import CLL.Log.Object
import CLL.Lib.Cbor
import CLL.Python.Cbor
import CLL.Core.Commitment
import CLL.Checkpoint.Cose
import CLL.Checkpoint.Soundness
import CLL.Checkpoint.Signer
import CLL.Checkpoint.RoundTrip
import CLL.Log.Sql
import CLL.Lib.AsciiJson
import CLL.Ledger.Admission
import CLL.Lib.Text
import CLL.Ledger.Index
import CLL.Core.Suffix
import CLL.Ledger.Segments
import CLL.Ledger.Lookup
import CLL.Ledger.Store
import CLL.Ledger.Content
import CLL.Ledger.Invariant
import CLL.Ledger.Reading
import CLL.Ledger.Reindex
import CLL.Checkpoint.Emit
import CLL.Checkpoint.Bundle
import CLL.Checkpoint.Bundling
import CLL.Ts.Mmr
import CLL.Ts.Append
import CLL.Core.Bridge
import CLL.Go.Mmr
import CLL.Go.Time
import CLL.Go.Checkpoint
import CLL.Go.Reference
import CLL.Go.Soundness
import CLL.Checkpoint.Witness
import CLL.Go.EntryHash
import CLL.Core.Verifiers
import CLL.Rust.Mmr
import CLL.Rust.Agreement
import CLL.Ledger.Closing
import CLL.Ledger.Queries
import CLL.Ts.Time
import CLL.Ts.Proof
import CLL.Ts.Checkpoint
import CLL.Ts.RoundTrip
import CLL.Rust.Log
import CLL.Rust.Time
import CLL.Rust.TimeCodec
import CLL.Rust.Engine
import CLL.Rust.Wire
import CLL.Rust.Sqlite
import CLL.Lib.StrictCbor
import CLL.Python.ReceiptItem
import CLL.Rust.Commitment
import CLL.Ts.CborStrict
import CLL.Go.Receipt
import CLL.Ts.Receipt
import CLL.Go.ReceiptVerifier
import CLL.Ts.ReceiptVerifier
import CLL.Ts.ReceiptAgreement
import CLL.Rust.NodeStore
import CLL.Go.Range
import CLL.Ts.MmrAgreement
import CLL.Lib.CborItem
import CLL.Python.CborKeys
import CLL.Python.DuplicateKeys
import CLL.Lib.JsonDict
import CLL.Log.Canonical
import CLL.Ledger.Scan
import CLL.Rust.Positions
import CLL.Ledger.Interleaving
import CLL.Ledger.Fetch
import CLL.Ledger.Revocation
import CLL.Ts.Inclusion
import CLL.Ledger.Atomicity
import CLL.Checkpoint.Runner
import CLL.Checkpoint.Delivery
import CLL.Checkpoint.Indexing
import CLL.Checkpoint.Protocol
