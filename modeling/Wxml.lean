import Wxml.CommandLine.Run
import Wxml.Main
import Wxml.Proofs.SiblingChains
import Wxml.Proofs.Scan
import Wxml.Proofs.OutputText
import Wxml.Proofs.TreeTokens
import Wxml.Proofs.ReadBack
import Wxml.Proofs.Markup
import Wxml.Proofs.ViablePrefix
import Wxml.Proofs.Braces
import Wxml.Proofs.LineEndings
import Wxml.Proofs.TokenPlaces
import Wxml.Proofs.Concatenation
import Wxml.Proofs.CompileFailure
import Wxml.Proofs.FailFast
import Wxml.Proofs.ChainBit
import Wxml.Proofs.JsonViews
import Wxml.Proofs.SourceListing
import Wxml.Proofs.OutputFolder
import Wxml.Proofs.SettledPaths
import Wxml.Proofs.FreshBuild
import Wxml.Proofs.Outputs
import Wxml.Proofs.CollectingBuild
import Wxml.Proofs.AttributeOrder
import Wxml.Proofs.StrayBranches
import Wxml.Proofs.AttributeReadBack
import Wxml.Proofs.LinkedTrees
import Wxml.Proofs.SourceSelection
import Wxml.Proofs.Delimiters
import Wxml.Proofs.StreamRuns
import Wxml.Proofs.ParseNotices
import Wxml.Proofs.SettingsReload
import Wxml.Proofs.ChainWords
import Wxml.Proofs.LineBreaks
import Wxml.Proofs.Scan.Rounds
