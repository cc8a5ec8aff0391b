import Scriptlet.Syntax.Written
import Scriptlet.Resolve.Uses
import Scriptlet.Session.Steps
import Scriptlet.Forest
import Scriptlet.Main
import Scriptlet.Proofs.Printing
import Scriptlet.Proofs.Scoping.Sessions
import Scriptlet.Proofs.Renaming.Accepted
import Scriptlet.Proofs.Renaming.Declarations
import Scriptlet.Proofs.Renaming.Law
import Scriptlet.Proofs.Control.Confined
import Scriptlet.Proofs.Layout.Moved
import Scriptlet.Proofs.Layout.Parsing
import Scriptlet.Proofs.Parsing.Resume
import Scriptlet.Proofs.Counting.Jumps
import Scriptlet.Proofs.Counting.Restored
import Scriptlet.Proofs.Counting.Ends
import Scriptlet.Proofs.Recovery.Switch
import Scriptlet.Proofs.Recovery.Bodies
import Scriptlet.Proofs.Diagnostics.Law
import Scriptlet.Proofs.Layout.Resolving
import Scriptlet.Proofs.Layout.Running
import Scriptlet.Proofs.Layout.Sessions
import Scriptlet.Proofs.Scanning.Seam
import Scriptlet.Proofs.Layout.Batch
import Scriptlet.Proofs.Faults.Sessions
import Scriptlet.Proofs.CommandLine.Exit
import Scriptlet.Proofs.Evaluation.Errors
import Scriptlet.Proofs.Scoping.Collisions
import Scriptlet.Proofs.Scoping.Lexical
import Scriptlet.Proofs.Interpreter.Preserved
import Scriptlet.Proofs.Braces.Trees
import Scriptlet.Proofs.Evaluation.Frames
import Scriptlet.Proofs.Braces.Pairs
import Scriptlet.Proofs.Braces.Agreement
import Scriptlet.Proofs.Braces.Lockstep
import Scriptlet.Proofs.Braces.Law
import Scriptlet.Proofs.Scanning.Longest
import Scriptlet.Proofs.Parsing.Continuation
import Scriptlet.Proofs.Loops.Law
import Scriptlet.Proofs.Store.Laws
import Scriptlet.Proofs.Parsing.Nesting
import Scriptlet.Proofs.Strings.Law
