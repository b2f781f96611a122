import SvgComponent.Main
import SvgComponent.Proofs.DocumentOrder
import SvgComponent.Proofs.ErrorComments
import SvgComponent.Proofs.Indented
import SvgComponent.Proofs.LineEndings
import SvgComponent.Proofs.Minified
import SvgComponent.Proofs.SessionRecovery
import SvgComponent.Proofs.Surroundings
import SvgComponent.Proofs.WritableTree
import SvgComponent.Proofs.CarriageReturns
import SvgComponent.Proofs.MappedTexts
import SvgComponent.Proofs.SettledIndentation
import SvgComponent.Proofs.FileWrites
import SvgComponent.Proofs.RunEffects
import SvgComponent.Proofs.JsxReading
import SvgComponent.Proofs.MixedContent
import SvgComponent.Proofs.LineByLine
import SvgComponent.Proofs.MinifiedText
import SvgComponent.Proofs.AdaptedTree
import SvgComponent.Proofs.Reprinting
import SvgComponent.Proofs.KeptCharacters
import SvgComponent.Proofs.MinifiedAgain
import SvgComponent.Proofs.Reindented
import SvgComponent.Proofs.LineLevels
import SvgComponent.Proofs.VoidElements
import SvgComponent.Proofs.RootErrors
import SvgComponent.Proofs.FaithfulText
import SvgComponent.Proofs.LexemeKinds
import SvgComponent.Proofs.TokenPlaces
import SvgComponent.Proofs.ComponentNames
import SvgComponent.Proofs.SettingsFaults
import SvgComponent.Proofs.OverriddenOptions
