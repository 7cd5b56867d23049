import HeapLint.Main
import HeapLint.Tree.Encode
import HeapLint.Proofs.Edit.Front
import HeapLint.Proofs.Edit.Splice
import HeapLint.Proofs.Edit.ListDeletion
import HeapLint.Proofs.Check.Exempt
import HeapLint.Proofs.Check.Independence
import HeapLint.Proofs.Check.Standing
import HeapLint.Proofs.Check.Directories
import HeapLint.Proofs.Check.ListedBases
import HeapLint.Proofs.Text.Cutting
import HeapLint.Proofs.Edit.Line
import HeapLint.Proofs.Edit.Transcript
import HeapLint.Proofs.Edit.Account
import HeapLint.Proofs.Edit.Identity
import HeapLint.Proofs.FileTree.Basic
import HeapLint.Proofs.FileTree.Steps
import HeapLint.Proofs.Edit.Grouping
import HeapLint.Proofs.Edit.Scope
import HeapLint.Proofs.Edit.Isolation
import HeapLint.Proofs.Edit.Input
import HeapLint.Proofs.Check.Renumbering
import HeapLint.Proofs.Json.Parser
import HeapLint.Proofs.Json.Fields
import HeapLint.Proofs.Json.Nesting
import HeapLint.Proofs.Tree.Dump
import HeapLint.Proofs.Json.Printer
import HeapLint.Proofs.Render.JsonLines
import HeapLint.Proofs.Check.Outcome
import HeapLint.Proofs.Inclusion.Guard
import HeapLint.Proofs.Inclusion.Comment
import HeapLint.Proofs.Inclusion.OwnHeader
import HeapLint.Proofs.Inclusion.Block
import HeapLint.Proofs.Inclusion.Presence
import HeapLint.Proofs.Tree.Descent
import HeapLint.Proofs.Tree.Unfolding
import HeapLint.Proofs.Tree.Splicing
import HeapLint.Proofs.Check.Alternatives
import HeapLint.Proofs.Tree.Preorder
import HeapLint.Proofs.Check.Drafts
import HeapLint.Proofs.Check.Escalation
import HeapLint.Proofs.Edit.Stretch
import HeapLint.Proofs.Edit.ExitCode
import HeapLint.Proofs.Edit.Changed
import HeapLint.Proofs.Discovery.Once
