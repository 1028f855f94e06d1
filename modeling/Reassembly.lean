import Reassembly.Delivery.Station
import Reassembly.Proofs.Conservation
import Reassembly.Proofs.Contents
import Reassembly.Proofs.Continuity
import Reassembly.Proofs.Disjointness
import Reassembly.Proofs.Fates
import Reassembly.Proofs.Framing
import Reassembly.Proofs.Freezing
import Reassembly.Proofs.Interleaving
import Reassembly.Proofs.Lanes
import Reassembly.Proofs.Nearest
import Reassembly.Proofs.Opening
import Reassembly.Proofs.Outcomes
import Reassembly.Proofs.Ownership
import Reassembly.Proofs.Positions
import Reassembly.Proofs.Reconstruction
import Reassembly.Proofs.Refinement
import Reassembly.Proofs.Reporting
import Reassembly.Proofs.Representation
import Reassembly.Proofs.Retention
import Reassembly.Proofs.Rounds
import Reassembly.Proofs.Routing
import Reassembly.Proofs.Setbacks
import Reassembly.Proofs.Site
import Reassembly.Publication
import Reassembly.Segment
import Reassembly.Writing.Put
import Reassembly.Proofs.Ageing
import Reassembly.Proofs.Answers
import Reassembly.Proofs.Gaps
import Reassembly.Proofs.Oblivion
import Reassembly.Proofs.Dates
import Reassembly.Proofs.Twins
import Reassembly.Proofs.Commuting
import Reassembly.Proofs.Turns
import Reassembly.Proofs.Fairness
import Reassembly.Proofs.Dealing
import Reassembly.Proofs.Polling
import Reassembly.Proofs.Dispatch
import Reassembly.Proofs.Rejections
import Reassembly.Proofs.Restraint
import Reassembly.Proofs.Sparing
import Reassembly.Proofs.Filing
import Reassembly.Proofs.Founding
import Reassembly.Proofs.Division
import Reassembly.Proofs.Gating
import Reassembly.Proofs.Recognition
import Reassembly.Proofs.Walks
import Reassembly.Proofs.Packing
import Reassembly.Proofs.Backings
import Reassembly.Proofs.Progress
import Reassembly.Proofs.Serial
import Reassembly.Proofs.Neighbours
