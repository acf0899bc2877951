import Quorum.Agent.Fleet
import Quorum.Text.Json

/-!
# What a local run ended with

* `Summary` : the reports of all peers and whether they agree;
* `Summary.toJson` : for programs;
* `Summary.text` : for people, a line for each peer.
-/

namespace Quorum

/-- What a local run ended with. -/
structure Summary where
  peers : List Report
  sentTransactions : Nat

namespace Summary

/-- Whether every peer ended with the same data as the next one. -/
def agreed (s : Summary) : Bool :=
  (s.peers.zip s.peers.tail).all fun p => p.1.last.data = p.2.last.data

/-- The completed periods of a peer, none if the data do not say. -/
def periods (r : Report) : UInt64 := r.last.data.periodCount.toOption.getD 0

/-- A number in JSON. -/
def number (n : Nat) : Json := .int n

/-- What a peer ended with. -/
def peerJson (r : Report) : Json := .object [
  ("peer", .string r.peer.toHex),
  ("finished", .bool r.finished),
  ("round", .string r.last.round.label),
  ("round_count", number r.last.roundCount.toNat),
  ("version", number r.last.data.version.toNat),
  ("height", number r.last.height.toNat),
  ("period_count", number (periods r).toNat),
  ("blocks_processed", number r.blocks),
  ("transitions", number r.transitions),
  ("dropped_responses", number r.dropped),
  ("state", .object (r.last.data.db.entries.map fun e => (e.1, .string (Hex.encode e.2))))]

/-- All of it as JSON. -/
def toJson (s : Summary) : Json := .object [
  ("agreed", .bool s.agreed),
  ("sent_transactions", number s.sentTransactions),
  ("peers", .array (s.peers.map peerJson))]

/-- A truth value in a line of text. -/
def truth (b : Bool) : String := if b then "true" else "false"

/-- The line of a peer. -/
def peerLine (r : Report) : String :=
  r.peer.short ++ " round=" ++ r.last.round.name ++ " periods=" ++ toString (periods r).toNat ++
    " height=" ++ toString r.last.height ++ " finished=" ++ truth r.finished ++ "\n"

/-- The lines of all peers, then whether they agree. -/
def text (s : Summary) : String :=
  "".intercalate (s.peers.map peerLine) ++ "agreed=" ++ truth s.agreed ++ " sent_transactions=" ++
    toString s.sentTransactions ++ "\n"

end Summary

end Quorum
