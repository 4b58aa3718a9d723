import SqlOutline.LineTable
import SqlOutline.Proofs.Bound.ColumnTop
import SqlOutline.Proofs.Bound.Combined
import SqlOutline.Proofs.Bound.Decision
import SqlOutline.Proofs.Bound.Idempotence
import SqlOutline.Proofs.Bound.Outside
import SqlOutline.Proofs.Bound.Parenthesized
import SqlOutline.Proofs.Bound.TopWords
import SqlOutline.Proofs.Bound.WrittenForms
import SqlOutline.Proofs.Indexed.Analysis
import SqlOutline.Proofs.Indexed.Partner
import SqlOutline.Proofs.Indexed.Subquery
import SqlOutline.Proofs.LineTable.Conversion
import SqlOutline.Proofs.LineTable.TokenLines
import SqlOutline.Proofs.Lineage.Definition
import SqlOutline.Proofs.Lineage.JoinGroup
import SqlOutline.Proofs.Lineage.LastAlias
import SqlOutline.Proofs.Lineage.Location
import SqlOutline.Proofs.Lineage.TableList
import SqlOutline.Proofs.Script.Explain
import SqlOutline.Proofs.Script.Spelling
import SqlOutline.Proofs.Script.Splitting
import SqlOutline.Proofs.Statement.DefinitionList
import SqlOutline.Proofs.Statement.Levels
import SqlOutline.Proofs.Token.Cover
import SqlOutline.Proofs.Token.Opaque
import SqlOutline.Proofs.Token.Range
import SqlOutline.Settings.Load
