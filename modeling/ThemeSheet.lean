import ThemeSheet.Literal.Wraparound
import ThemeSheet.Main
import ThemeSheet.Proofs.Alike
import ThemeSheet.Proofs.ArrayIndices
import ThemeSheet.Proofs.Commented
import ThemeSheet.Proofs.Debouncing
import ThemeSheet.Proofs.DeliveryOrder
import ThemeSheet.Proofs.DerivationTree
import ThemeSheet.Proofs.Extracted
import ThemeSheet.Proofs.FailedCycle
import ThemeSheet.Proofs.FormattedCycle
import ThemeSheet.Proofs.GuardedWrite
import ThemeSheet.Proofs.Interpolation
import ThemeSheet.Proofs.KebabCase
import ThemeSheet.Proofs.KeptFormatter
import ThemeSheet.Proofs.KeyOrder
import ThemeSheet.Proofs.LocatedLiteral
import ThemeSheet.Proofs.MaskedAlike
import ThemeSheet.Proofs.NormalAlike
import ThemeSheet.Proofs.NormalData
import ThemeSheet.Proofs.NumberText
import ThemeSheet.Proofs.NumberTypes
import ThemeSheet.Proofs.OpaqueSpans
import ThemeSheet.Proofs.PrintedMapping
import ThemeSheet.Proofs.PropertyNames
import ThemeSheet.Proofs.Requoted
import ThemeSheet.Proofs.ResolvedConfig
import ThemeSheet.Proofs.SheetReadBack
import ThemeSheet.Proofs.Skipped
import ThemeSheet.Proofs.SpacedComments
import ThemeSheet.Proofs.StringUnits
import ThemeSheet.Proofs.SyntaxErrors
import ThemeSheet.Proofs.Templates
import ThemeSheet.Proofs.TypeRules
import ThemeSheet.Proofs.WatchStart
