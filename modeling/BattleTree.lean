import BattleTree.Bank.Batch
import BattleTree.Observation.Buffer
import BattleTree.Graph.Compile
import BattleTree.Graph.Exhaustive
import BattleTree.Bank.Load
import BattleTree.Run.Load
import BattleTree.Serial.Json
import BattleTree.Serial.Program
import BattleTree.Serial.Graph
import BattleTree.Serial.World
import BattleTree.Proofs.Program.Recognition
import BattleTree.Proofs.Program.RoundTrip
import BattleTree.Proofs.Graph.Composition
import BattleTree.Proofs.Graph.Visibility
import BattleTree.Proofs.Graph.Explanation
import BattleTree.Proofs.Graph.Exploration
import BattleTree.Proofs.Graph.Legality
import BattleTree.Proofs.Graph.Totality
import BattleTree.Proofs.Bank.Batch
import BattleTree.Proofs.Catalog.Spelling
import BattleTree.Proofs.Graph.Spelling
import BattleTree.Proofs.Serial.Lawful
import BattleTree.Proofs.Serial.Program
import BattleTree.Proofs.Observation.Acceptance
import BattleTree.Proofs.Serial.Graph
import BattleTree.Proofs.Run.Batch
import BattleTree.Proofs.Bank.Programs
import BattleTree.Proofs.Bank.Loading
import BattleTree.Proofs.Scene.Guards
import BattleTree.Proofs.Bank.Mismatch
import BattleTree.Proofs.Catalog.Signature
import BattleTree.Proofs.Graph.Lookup
import BattleTree.Proofs.Geometry.Intersection
import BattleTree.Proofs.Terrain.Cells
import BattleTree.Proofs.Terrain.Sweep
import BattleTree.Proofs.Observation.Recording
import BattleTree.Proofs.Program.Extension
import BattleTree.Proofs.Program.Failure
import BattleTree.Proofs.Program.Nesting
import BattleTree.Proofs.Program.Viability
import BattleTree.Proofs.Program.Blame
import BattleTree.Proofs.Program.Places
import BattleTree.Proofs.Graph.Location
import BattleTree.Proofs.Scene.Members
import BattleTree.Proofs.Graph.Arrangement
import BattleTree.Proofs.Binary32.Negation
import BattleTree.Proofs.Scene.Flock
import BattleTree.Proofs.Graph.Refactoring
import BattleTree.Proofs.Trace.Sharing
import BattleTree.Proofs.Random.Drawing
