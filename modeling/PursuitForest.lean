import PursuitForest.Scalar
import PursuitForest.Label
import PursuitForest.FeatureTable
import PursuitForest.Dataset.Basic
import PursuitForest.Dataset.Blocks
import PursuitForest.Dataset.Grouped
import PursuitForest.Dataset.Scaling
import PursuitForest.Linear.Eigen
import PursuitForest.Pursuit.Discriminant
import PursuitForest.Random.Choice
import PursuitForest.Random.Xoshiro
import PursuitForest.Dataset.Bootstrap
import PursuitForest.Pursuit.Columns
import PursuitForest.Tree.Traversal
import PursuitForest.Tree.Regrouping
import PursuitForest.Tree.Settings
import PursuitForest.Tree.Growth
import PursuitForest.Confusion.Counts
import PursuitForest.Numeral.Layout
import PursuitForest.Text.Message
import PursuitForest.Tree.Model
import PursuitForest.Forest.Model
import PursuitForest.Importance.Model
import PursuitForest.Confusion.Layout
import PursuitForest.Blobs
import PursuitForest.Json.Reader
import PursuitForest.Archive.Settings
import PursuitForest.Archive.Model
import PursuitForest.Proofs.Dataset.Classes
import PursuitForest.Proofs.Outcomes
import PursuitForest.Proofs.Tree.Cut
import PursuitForest.Proofs.Tree.Division
import PursuitForest.Proofs.Tree.Recursion
import PursuitForest.Proofs.Dataset.RowImages
import PursuitForest.Proofs.Exact
import PursuitForest.Proofs.Forest.Endings
import PursuitForest.Proofs.Forest.OutOfBag
import PursuitForest.Proofs.Forest.Size
import PursuitForest.Proofs.Importance.NodeData
import PursuitForest.Proofs.OrderedScalar
import PursuitForest.Proofs.Json.Numerals
import PursuitForest.Proofs.Tree.Orientation
import PursuitForest.Proofs.Json.Tokens
import PursuitForest.Proofs.Json.Values
import PursuitForest.Proofs.Archive.Nodes
import PursuitForest.Proofs.Archive.RoundTrip
import PursuitForest.Proofs.Dataset.StableSort
import PursuitForest.Proofs.Dataset.BlockIndex
import PursuitForest.Proofs.Dataset.Tables
import PursuitForest.Proofs.Dataset.Storage
import PursuitForest.Proofs.Dataset.Calls
import PursuitForest.Proofs.Archive.Restored
import PursuitForest.Proofs.Dataset.Relabelling
import PursuitForest.Proofs.Forest.Plurality
import PursuitForest.Proofs.Tree.Prediction
import PursuitForest.Proofs.Forest.Voting
import PursuitForest.Proofs.Confusion.Tally
import PursuitForest.Proofs.Forest.OutOfBagVotes
import PursuitForest.Proofs.Forest.Interleaving
import PursuitForest.Proofs.Tree.Simulation
import PursuitForest.Proofs.Forest.Simulation
import PursuitForest.Proofs.Forest.AllColumns
import PursuitForest.Proofs.Tree.UnusedColumn
import PursuitForest.Proofs.Importance.UnusedColumn
import PursuitForest.Proofs.Sorting.Images
import PursuitForest.Proofs.Dataset.Increasing
import PursuitForest.Proofs.Pursuit.OtherLabels
import PursuitForest.Proofs.Tree.OtherLabels
import PursuitForest.Proofs.Forest.OtherLabels
import PursuitForest.Proofs.Tree.DrawnColumns
import PursuitForest.Proofs.Importance.Vectors
import PursuitForest.Proofs.Tree.Widths
import PursuitForest.Proofs.Forest.Widths
import PursuitForest.Proofs.Archive.Widths
import PursuitForest.Proofs.Archive.Classes
import PursuitForest.Proofs.Forest.Retries
import PursuitForest.Proofs.Archive.Scoring
import PursuitForest.Proofs.Numeral.Rounding
import PursuitForest.Proofs.Archive.MachineScalars
import PursuitForest.Proofs.Archive.SecondReading
import PursuitForest.Proofs.Forest.Seeds
import PursuitForest.Proofs.Tree.TwoClasses
import PursuitForest.Proofs.Tree.LargestGap
import PursuitForest.Proofs.Tree.Separation
import PursuitForest.Proofs.Linear.Matrices
import PursuitForest.Proofs.Pursuit.Scatter
import PursuitForest.Proofs.Pursuit.Decomposition
import PursuitForest.Proofs.Pursuit.Separability
import PursuitForest.Proofs.Importance.Adjusted
import PursuitForest.Proofs.Linear.Eigenpairs
import PursuitForest.Proofs.Linear.RealSpectra
import PursuitForest.Proofs.Pursuit.Optimum
import PursuitForest.Proofs.Pursuit.CanonicalForm
import PursuitForest.Proofs.Pursuit.Selections
import PursuitForest.Proofs.Pursuit.ConstantColumns
import PursuitForest.Proofs.Dataset.ColumnsFirst
import PursuitForest.Proofs.Confusion.Cells
import PursuitForest.Proofs.Confusion.Scores
import PursuitForest.Proofs.Dataset.Contiguity
import PursuitForest.Proofs.Tree.Descent
import PursuitForest.Proofs.Archive.Predictions
import PursuitForest.Proofs.Pursuit.Direction
import PursuitForest.Proofs.Tree.Similarity
import PursuitForest.Proofs.Tree.PostOrder
import PursuitForest.Proofs.Tree.Levels
import PursuitForest.Proofs.Importance.Sums
import PursuitForest.Proofs.Confusion.Alignment
import PursuitForest.Proofs.Blobs
import PursuitForest.Proofs.Forest.Crews
