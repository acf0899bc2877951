import Quorum.Round.Error

/-!
# The graph of rounds

* `Table` : which round follows on which event, and the round in the background;
* `Table.build` : checks that every round that can be reached has an edge for every event with
  which it can end;
* `Table.target` : the round that follows;
* `Table.bundled` : the graph of the bundled application.
-/

namespace Quorum

/-- From a round, on an event, to a round. -/
structure Edge where
  source : RoundKind
  event : Event
  target : RoundKind
  deriving DecidableEq

/-- Which round follows on which event. -/
structure Table where
  initial : RoundKind
  edges : List Edge
  background : Option Edge
  deriving DecidableEq

namespace Table

/-- The edges of the bundled application. -/
def bundledEdges : List Edge := [
  ⟨.registrationStartup, .done, .randomness⟩,
  ⟨.randomness, .done, .selectKeeper⟩,
  ⟨.randomness, .noMajority, .randomness⟩,
  ⟨.randomness, .roundTimeout, .randomness⟩,
  ⟨.selectKeeper, .done, .collectSignature⟩,
  ⟨.selectKeeper, .roundTimeout, .randomness⟩,
  ⟨.collectSignature, .done, .finalization⟩,
  ⟨.collectSignature, .roundTimeout, .randomness⟩,
  ⟨.finalization, .done, .validateTransaction⟩,
  ⟨.finalization, .finalizationFailed, .selectKeeper⟩,
  ⟨.finalization, .roundTimeout, .selectKeeper⟩,
  ⟨.validateTransaction, .done, .randomness⟩,
  ⟨.validateTransaction, .negative, .selectKeeper⟩,
  ⟨.validateTransaction, .roundTimeout, .selectKeeper⟩]

/-- The background round of the bundled application and where it leads. -/
def bundledBackground : Edge := ⟨.termination, .terminate, .terminated⟩

/-- The target of the edge of a round and an event. -/
def find? (edges : List Edge) (round : RoundKind) (event : Event) : Option RoundKind :=
  (edges.find? fun e => e.source = round && e.event = event).map Edge.target

/-- Check the edges one after the other against those before them. -/
def checkEdges : List Edge → List Edge → Except ConfigError Unit
  | _, [] => .ok ()
  | before, e :: rest =>
    if e.source.isTerminal then .error (.terminalWithEdges e.source)
    else if (find? before e.source e.event).isSome then
      .error (.duplicateTransition e.source e.event)
    else checkEdges (before ++ [e]) rest

/-- Check that the background edge leaves a background round on one of its events. -/
def checkBackground : Option Edge → Except ConfigError Unit
  | none => .ok ()
  | some e =>
    if !e.source.isBackground then .error (.notBackground e.source)
    else if !e.source.emits e.event then .error (.unknownTransition e.source e.event)
    else .ok ()

/-- The rounds that follow a round on each of its events. -/
def successors (edges : List Edge) (round : RoundKind) :
    List Event → Except ConfigError (List RoundKind)
  | [] => .ok []
  | e :: es =>
    match find? edges round e with
    | none => .error (.unknownTransition round e)
    | some next => (next :: ·) <$> successors edges round es

/-- Visit the pending rounds, the last one first, and those that follow them. -/
def explore (edges : List Edge) : Nat → List RoundKind → List RoundKind → Except ConfigError Unit
  | 0, _, _ => .ok ()
  | _ + 1, _, [] => .ok ()
  | fuel + 1, visited, round :: pending =>
    if visited.contains round then explore edges fuel visited pending
    else
      match successors edges round round.events with
      | .error e => .error e
      | .ok next => explore edges fuel (round :: visited) (next.reverse ++ pending)

/-- More steps than exploring can take: each of the eight kinds is expanded once and adds at most
three rounds to the two that it starts with. -/
def exploreSteps : Nat := 2 + 8 * 4

/-- The table of an initial round, edges and a background edge, if it is complete. -/
def build (initial : RoundKind) (edges : List Edge) (background : Option Edge) :
    Except ConfigError Table := do
  checkEdges [] edges
  checkBackground background
  explore edges exploreSteps [] (background.toList.map Edge.target ++ [initial])
  pure ⟨initial, edges, background⟩

/-- The table of the bundled application. -/
def bundled : Except ConfigError Table :=
  build .registrationStartup bundledEdges (some bundledBackground)

/-- The round in the background. -/
def backgroundRound? (t : Table) : Option RoundKind := t.background.map Edge.source

/-- The round that follows a round on an event; the background edge comes before the others. -/
def target (t : Table) (round : RoundKind) (event : Event) : Except ConfigError RoundKind :=
  match t.background.filter fun e => e.source = round && e.event = event with
  | some e => .ok e.target
  | none => (find? t.edges round event).elim (.error (.unknownTransition round event)) .ok

/-- The bundled application has a complete table. -/
theorem bundled_eq : bundled =
    .ok ⟨.registrationStartup, bundledEdges, some bundledBackground⟩ := by rfl

end Table

end Quorum
