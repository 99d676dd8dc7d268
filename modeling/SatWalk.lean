import SatWalk.Position
import SatWalk.Listing
import SatWalk.Firsts
import SatWalk.Literal
import SatWalk.FlipChoice
import SatWalk.Mask
import SatWalk.Fault
import SatWalk.Decimal
import SatWalk.MachineReal
import SatWalk.Binary64
import SatWalk.Scalar
import SatWalk.Printable
import SatWalk.Quoted
import SatWalk.Value
import SatWalk.Choice
import SatWalk.Source
import SatWalk.Source.Script
import SatWalk.Source.Twister
import SatWalk.Assignment
import SatWalk.Formula
import SatWalk.Formula.Build
import SatWalk.PickSet
import SatWalk.State
import SatWalk.Break
import SatWalk.BreakCount
import SatWalk.Weight
import SatWalk.Draw
import SatWalk.Sampler
import SatWalk.Statistics
import SatWalk.Config
import SatWalk.Walk
import SatWalk.Walk.Steps
import SatWalk.Event
import SatWalk.Run
import SatWalk.Proofs.Occurrences
import SatWalk.Proofs.Toggling
import SatWalk.Proofs.Evaluation
import SatWalk.Proofs.Record
import SatWalk.Proofs.Selection
import SatWalk.Proofs.Drawing
import SatWalk.Proofs.Combinations
import SatWalk.Proofs.Neighbours
import SatWalk.Proofs.BreakCounts
import SatWalk.Proofs.Legality
import SatWalk.Proofs.Faults
import SatWalk.Proofs.Moves
import SatWalk.Proofs.Exactness
import SatWalk.Proofs.WholeRun
import SatWalk.Proofs.Marks
import SatWalk.Proofs.Repairs
import SatWalk.Proofs.Trails
import SatWalk.Proofs.SingleBreaks
import SatWalk.Proofs.Predictions
import SatWalk.Proofs.Lockstep
import SatWalk.Proofs.Settings
import SatWalk.Proofs.Budgets
import SatWalk.Proofs.Tables
import SatWalk.Proofs.Restarts
import SatWalk.Proofs.Numbers
import SatWalk.Proofs.Rounding
import SatWalk.Proofs.Doubles
import SatWalk.Proofs.DoubleArithmetic
import SatWalk.Proofs.Shortages
import SatWalk.Proofs.Endings
import SatWalk.Proofs.Renaming
import SatWalk.Proofs.RenamedRuns
import SatWalk.Proofs.FlipEffect
import SatWalk.Proofs.Building
import SatWalk.Proofs.Indexes
import SatWalk.Proofs.IgnoredSettings
import SatWalk.Proofs.Lookups
import SatWalk.Proofs.Interruptions
import SatWalk.Proofs.Histories
import SatWalk.Proofs.Submasks
import SatWalk.Proofs.Widths
import SatWalk.Proofs.Redraws
import SatWalk.Proofs.Guards
import SatWalk.Proofs.Refusals
import SatWalk.Proofs.Sums
import SatWalk.Proofs.WeightedDraws
import SatWalk.Proofs.DoubleFractions
import SatWalk.Proofs.OccurrenceBounds
import SatWalk.Proofs.Reading
import SatWalk.Proofs.Acceptance
import SatWalk.Proofs.FlipSets
import SatWalk.Proofs.DisplayNames
import SatWalk.Proofs.Progress
