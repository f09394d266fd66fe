import ApiPages.Main
import ApiPages.Proofs.Conversion.DryRun
import ApiPages.Proofs.Conversion.Precedence
import ApiPages.Proofs.Inheritance.Nearest
import ApiPages.Proofs.Loading
import ApiPages.Proofs.Render.CodeBlocks
import ApiPages.Proofs.Render.Index
import ApiPages.Proofs.Render.LinkMode
import ApiPages.Proofs.Render.Marks
import ApiPages.Proofs.Render.Members
import ApiPages.Proofs.Render.Paragraphs
import ApiPages.Proofs.Render.TextContent
import ApiPages.Proofs.Signature.Method
import ApiPages.Proofs.Value.JsonString
import ApiPages.Proofs.Value.CanonicalJson
import ApiPages.Proofs.Files.Alike
import ApiPages.Proofs.Lockstep
import ApiPages.Proofs.Conversion.SectionHeader
import ApiPages.Proofs.Conversion.EmptySection
import ApiPages.Proofs.Inheritance.InTurn
import ApiPages.Proofs.Inheritance.Associative
import ApiPages.Proofs.Prose.Line
import ApiPages.Proofs.Prose.NormalForm
import ApiPages.Proofs.Prose.Idempotent
import ApiPages.Proofs.Render.Bullets
import ApiPages.Proofs.Prose.Gather
import ApiPages.Proofs.Render.ListEntries
import ApiPages.Proofs.Render.TableRows
import ApiPages.Proofs.Prose.Span
import ApiPages.Proofs.Render.InlineCode
import ApiPages.Proofs.Render.CodeSpan
import ApiPages.Proofs.Signature.Expansion
import ApiPages.Proofs.Signature.Nested
import ApiPages.Proofs.Signature.Shortening
import ApiPages.Proofs.Signature.Balance
import ApiPages.Proofs.Signature.Unbalanced
import ApiPages.Proofs.Render.ListCode
import ApiPages.Proofs.Value.Merging
import ApiPages.Proofs.Inheritance.Heuristic
import ApiPages.Proofs.Signature.Script
import ApiPages.Proofs.Signature.Segments
import ApiPages.Proofs.Signature.WholeLabel
import ApiPages.Proofs.Signature.Partner
import ApiPages.Proofs.Signature.Splitting
import ApiPages.Proofs.Signature.Expanded
import ApiPages.Proofs.Signature.Calls
